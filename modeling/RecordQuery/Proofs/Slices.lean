import RecordQuery.Proofs.Confinement
import RecordQuery.Proofs.Pages

/-!
# What an envelope says of its slice

An envelope shows the first of the rows that remain, says whether further ones follow, and gives a
number of rows only if it is that of all matching ones. This holds of every slice: a numbered page,
a window, and what follows a cursor, whatever values the cursor brings.

* `Table.after_upward`: what comes after a row that is past a position is past it too.
* `Executor.remaining`: the matching rows in order from the first row of the slice on;
  `remaining_suffix` says that they are the end of all matching rows.
* `Executor.reply_of_execute`: the reply behind an envelope.
* `Executor.execute_exact`: the records, the continuation and the total of an envelope.
-/

namespace RecordQuery

open RecordQuery.Store RecordQuery.Calendar

namespace Store

/-! ## Positions of any values -/

namespace Table

variable {t : Table}

/-- The conditions of being past a place and of being at it cut the rows in the direction of a key.
The rows are compared by cells that are not NaNs. -/
structure Cuts (t : Table) (k : SortKey) (past same : Predicate) : Prop where
  past_of_past {a b : Row} (ha : (a.cell k.column).isNan = false)
    (hb : (b.cell k.column).isNan = false) (hab : (k.compare a b).isLE = true) :
    t.accepts past a = true → t.accepts past b = true
  past_of_same {a b : Row} (ha : (a.cell k.column).isNan = false)
    (hb : (b.cell k.column).isNan = false) (hab : k.compare a b = .lt) :
    t.accepts same a = true → t.accepts past b = true
  same_of_same {a b : Row} (ha : (a.cell k.column).isNan = false)
    (hb : (b.cell k.column).isNan = false) (hab : k.compare a b = .eq) :
    t.accepts same a = true → t.accepts same b = true

/-- A value that stands for a cell cuts the rows at the cell. -/
theorem cuts_of_stands {k : SortKey} {v : Value} {c : Cell} (h : t.Stands k.column v c)
    {past : Predicate} (hpast : Predicate.beyond k.column k.direction v = .ok past) :
    t.Cuts k past (.equal k.column v) := by
  obtain ⟨column, direction⟩ := k
  have hpastAccepts {row : Row} (hrow : (row.cell column).isNan = false) :
      t.accepts past row = true ↔ Direction.compareRank direction c (row.cell column) = .lt := by
    obtain ⟨p, hp, haccepts⟩ := beyond_accepts direction h
    obtain rfl : p = past := Except.ok.inj (hp.symm.trans hpast)
    rw [haccepts row hrow, beq_iff_eq]
  have hsameAccepts {row : Row} (hrow : (row.cell column).isNan = false) :
      t.accepts (.equal column v) row = true ↔
        Direction.compareRank direction c (row.cell column) = .eq := by
    rw [equal_accepts h hrow, beq_iff_eq, Direction.compareRank_eq_iff]
  constructor
  · intro a b ha hb hab h
    exact (hpastAccepts hb).2 (Std.TransCmp.lt_of_lt_of_isLE ((hpastAccepts ha).1 h) hab)
  · intro a b ha hb hab h
    exact (hpastAccepts hb).2 (Std.TransCmp.lt_of_eq_of_lt ((hsameAccepts ha).1 h) hab)
  · intro a b ha hb hab h
    exact (hsameAccepts hb).2 (Std.TransCmp.eq_trans ((hsameAccepts ha).1 h) hab)

/-- A NaN is at no row, and past it are only absent values. -/
theorem cuts_of_null {k : SortKey} {v : Value} (hbool : ∀ b, v ≠ .bool b) (hnull : v ≠ .null)
    (hv : t.operand? k.column v = some .null) {past : Predicate}
    (hpast : Predicate.beyond k.column k.direction v = .ok past) :
    t.Cuts k past (.equal k.column v) := by
  obtain ⟨column, direction⟩ := k
  have hsame (row : Row) : t.accepts (.equal column v) row = false := by
    rw [equal_eq hnull]
    exact accepts_compare_null hv row
  have hcut {a : Row} {p : Prop} (h : t.accepts (.equal column v) a = true) : p := by
    rw [hsame a] at h
    cases h
  refine ⟨?_, fun _ _ _ h => hcut h, fun _ _ _ h => hcut h⟩
  intro a b ha hb hab h
  cases direction with
  | asc =>
    obtain rfl := Except.ok.inj ((beyond_asc hbool hnull).symm.trans hpast)
    rw [accepts_compare_null hv] at h
    cases h
  | desc =>
    obtain rfl := Except.ok.inj ((beyond_desc hbool hnull).symm.trans hpast)
    have hform : (t.condition? (.compare .lt column v)).isSome = true := (sturdy_compare hv).form
    have haccepts (row : Row) : t.accepts (.or (.compare .lt column v) (.isNull column)) row
        = (row.cell column).isNull := by
      rw [accepts_or hform rfl, accepts_compare_null hv, accepts_isNull, Bool.false_or]
    rw [haccepts, isNull_iff] at h ⊢
    by_contra hne
    -- an absent cell is below the other one, which was to be below it
    have hlt : Cell.compareRank (a.cell column) (b.cell column) = .lt := by
      rw [h]
      exact compareRank_null_left hne
    have hgt : Cell.compareRank (b.cell column) (a.cell column) = .gt :=
      Std.OrientedCmp.gt_of_lt hlt
    change (Cell.compareRank (b.cell column) (a.cell column)).isLE = true at hab
    rw [hgt] at hab
    cases hab

/-- Every value that can be compared with cuts the rows, if the store has a form for it. -/
theorem cuts_of_beyond {k : SortKey} {v : Value} {past : Predicate}
    (hpast : Predicate.beyond k.column k.direction v = .ok past)
    (hform : (t.condition? past).isSome = true) : t.Cuts k past (.equal k.column v) := by
  by_cases hnull : v = .null
  · subst hnull
    exact cuts_of_stands .absent hpast
  have hbool : ∀ b, v ≠ .bool b := by
    rintro b rfl
    cases hd : k.direction <;> (rw [hd] at hpast; cases hpast)
  obtain ⟨c, hc⟩ : ∃ c, t.operand? k.column v = some c := by
    cases hd : k.direction with
    | asc =>
      rw [hd, beyond_asc hbool hnull] at hpast
      cases hpast
      rw [condition?, Option.isSome_map] at hform
      exact Option.isSome_iff_exists.1 hform
    | desc =>
      rw [hd, beyond_desc hbool hnull] at hpast
      cases hpast
      rw [form_or, Bool.and_eq_true] at hform
      have hleft := hform.1
      rw [condition?, Option.isSome_map] at hleft
      exact Option.isSome_iff_exists.1 hleft
  by_cases hcell : c = .null
  · exact cuts_of_null hbool hnull (hcell ▸ hc) hpast
  · exact cuts_of_stands (.present hbool hnull hc hcell (isNan_of_operand? hc)) hpast

/-- A row is accepted by an alternative if it agrees as far as it is to, and then is past. -/
theorem accepts_branch {agreed : List Predicate} {past : Predicate} {row : Row} :
    t.accepts (agreed.foldr .and past) row = true ↔
      (∀ q ∈ agreed, t.accepts q row = true) ∧ t.accepts past row = true := by
  rw [accepts_foldr_and, Bool.and_eq_true, List.all_eq_true]

/-- An alternative asks for all that was agreed, and for more. -/
theorem accepts_of_mem_branches {sort : List SortCriterion} {position : List Value}
    {agreed branches : List Predicate} (h : Predicate.Branches agreed sort position branches)
    {p : Predicate} (hp : p ∈ branches) {row : Row} (hrow : t.accepts p row = true) :
    ∀ q ∈ agreed, t.accepts q row = true := by
  induction h with
  | nil => cases hp
  | cons head tail ih =>
    rcases List.mem_cons.1 hp with rfl | hp
    · exact (accepts_branch.1 hrow).1
    · exact fun q hq => ih hp q (List.mem_append_left _ hq)

theorem form_of_foldr_and {ps : List Predicate} {q : Predicate}
    (h : (t.condition? (ps.foldr .and q)).isSome = true) : (t.condition? q).isSome = true := by
  induction ps with
  | nil => exact h
  | cons p ps ih =>
    rw [List.foldr_cons, form_and, Bool.and_eq_true] at h
    exact ih h.2

/-- The alternatives together are closed upwards: by the first key in which the rows differ, or by
the key of the alternative that accepts the first row. -/
theorem branches_upward {sort : List SortCriterion} {position : List Value}
    {agreed branches : List Predicate} (h : Predicate.Branches agreed sort position branches)
    (hforms : ∀ p ∈ branches, (t.condition? p).isSome = true) {a b : Row}
    (ha : a.Ordered (sortKeys sort)) (hb : b.Ordered (sortKeys sort))
    (hle : (compareRanks (sortKeys sort) a b).isLE = true)
    (hagreed : ∀ p ∈ agreed, t.accepts p a = true → t.accepts p b = true)
    (hany : ∃ p ∈ branches, t.accepts p a = true) : ∃ p ∈ branches, t.accepts p b = true := by
  induction h with
  | nil =>
    obtain ⟨p, hp, -⟩ := hany
    cases hp
  | @cons agreed rest s sort v position past head tail ih =>
    let k : SortKey := ⟨s.field, s.direction⟩
    have hcuts : t.Cuts k past (.equal s.field v) :=
      cuts_of_beyond (k := k) head (form_of_foldr_and (hforms _ List.mem_cons_self))
    have hak := ha k List.mem_cons_self
    have hbk := hb k List.mem_cons_self
    change (compareRanks (k :: sortKeys sort) a b).isLE = true at hle
    rw [compareRanks_cons] at hle
    -- being past the value, together with what was agreed, is the first alternative
    have hfirst (hall : ∀ q ∈ agreed, t.accepts q a = true) (hpast : t.accepts past b = true) :
        ∃ p ∈ agreed.foldr .and past :: rest, t.accepts p b = true :=
      ⟨_, List.mem_cons_self, accepts_branch.2 ⟨fun q hq => hagreed q hq (hall q hq), hpast⟩⟩
    obtain ⟨p, hp, hpa⟩ := hany
    rcases List.mem_cons.1 hp with rfl | hp
    · obtain ⟨hall, hpast⟩ := accepts_branch.1 hpa
      exact hfirst hall (hcuts.past_of_past hak hbk (Ordering.isLE_left_of_isLE_then hle) hpast)
    · have hall := accepts_of_mem_branches tail hp hpa
      have hsame : t.accepts (.equal s.field v) a = true := hall _ (by simp)
      rcases Ordering.isLE_then_iff_or.1 hle with hlt | ⟨heq, hrest⟩
      · exact hfirst (fun q hq => hall q (List.mem_append_left _ hq))
          (hcuts.past_of_same hak hbk hlt hsame)
      · have hagreed' : ∀ q ∈ agreed ++ [.equal s.field v],
            t.accepts q a = true → t.accepts q b = true := by
          intro q hq
          rcases List.mem_append.1 hq with hq | hq
          · exact hagreed q hq
          · rw [List.mem_singleton.1 hq]
            exact hcuts.same_of_same hak hbk heq
        obtain ⟨r, hr, hrb⟩ := ih (fun r hr => hforms r (List.mem_cons_of_mem _ hr))
          (fun k hk => ha k (List.mem_cons_of_mem _ hk))
          (fun k hk => hb k (List.mem_cons_of_mem _ hk)) hrest hagreed' ⟨p, hp, hpa⟩
        exact ⟨r, List.mem_cons_of_mem _ hr, hrb⟩

/-- What does not come before a row past a position is past it too, whatever the position. -/
theorem after_upward {sort : List SortCriterion} (hsort : sort ≠ []) {position : List Value}
    {p : Predicate} (h : Predicate.after sort position = .ok p)
    (hform : (t.condition? p).isSome = true) {a b : Row} (ha : a.Ordered (sortKeys sort))
    (hb : b.Ordered (sortKeys sort)) (hle : (compareRanks (sortKeys sort) a b).isLE = true)
    (hpa : t.accepts p a = true) : t.accepts p b = true := by
  obtain ⟨branches, hbranches, rfl⟩ := map_eq_ok.1 h
  have hmade := Predicate.branches_of_ok hbranches
  have hne : branches ≠ [] := by
    cases hmade with
    | nil => exact absurd rfl hsort
    | cons head tail => exact List.cons_ne_nil _ _
  rw [accepts_disjunction hne hform, List.any_eq_true] at hpa ⊢
  refine branches_upward hmade (forms_of_disjunction hform) ha hb hle ?_ hpa
  intro q hq
  cases hq

end Table

/-- What a condition that is closed upwards keeps of sorted rows is their end. -/
theorem filter_suffix {α : Type} {p : α → Bool} {l : List α}
    (h : l.Pairwise fun a b => p a = true → p b = true) : l.filter p <:+ l := by
  induction l with
  | nil => exact List.suffix_rfl
  | cons a l ih =>
    rw [List.pairwise_cons] at h
    by_cases ha : p a = true
    · have hall : (a :: l).filter p = a :: l := by
        apply List.filter_eq_self.2
        intro b hb
        rcases List.mem_cons.1 hb with rfl | hb
        · exact ha
        · exact h.1 b hb ha
      rw [hall]
    · rw [List.filter_cons_of_neg ha]
      exact (ih h.2).trans (List.suffix_cons a l)

end Store

/-! ## What remains -/

namespace Executor

variable {x : Executor} {t : Table} {req : ExecutionRequest}

/-- The matching rows in order from the first row of the slice on: those past the position of a
cursor, or those past a number of rows. -/
def remaining (x : Executor) (t : Table) (req : ExecutionRequest) : List Row :=
  match x.keyset (x.sortOf req) req.spec.pagination with
  | .ok after =>
    ((x.ordered t req).filter fun row => after.all fun p => t.accepts p row).drop
      req.spec.pagination.firstRow
  | .error _ => []

/-- The rows of a numbered slice and the one behind them can be read. -/
def ReadsSlice (x : Executor) (t : Table) (req : ExecutionRequest) (p : Pagination) : Prop :=
  ∀ row ∈ ((x.ordered t req).drop p.firstRow).take (p.limit + 1).toNat, t.reads row = true

/-- Where all rows can be read, every slice can. -/
theorem readsSlice_of_rows (h : ∀ row ∈ t.rows, t.reads row = true) (p : Pagination) :
    x.ReadsSlice t req p :=
  fun row hrow => h row (ordered_mem (List.mem_of_mem_drop (List.mem_of_mem_take hrow)))

theorem remaining_eq {after : Option Predicate}
    (h : x.keyset (x.sortOf req) req.spec.pagination = .ok after) :
    x.remaining t req
      = ((x.ordered t req).filter fun row => after.all fun p => t.accepts p row).drop
        req.spec.pagination.firstRow := by
  rw [remaining, h]

theorem keyset_of_not_isCursor {sort : List SortCriterion} {pagination : Pagination}
    (h : pagination.isCursor = false) : x.keyset sort pagination = .ok none := by
  cases pagination with
  | cursor page => cases h
  | _ => rfl

/-- Without a cursor, the slice starts at the row of its number. -/
theorem remaining_of_not_isCursor (h : req.spec.pagination.isCursor = false) :
    x.remaining t req = (x.ordered t req).drop req.spec.pagination.firstRow := by
  rw [remaining_eq (keyset_of_not_isCursor h)]
  simp

theorem after_of_keyset {sort : List SortCriterion} {pagination : Pagination} {p : Predicate}
    (h : x.keyset sort pagination = .ok (some p)) :
    ∃ position, Predicate.after sort position = .ok p := by
  unfold keyset at h
  split at h
  · obtain ⟨_, -, h⟩ := bind_eq_ok.1 h
    obtain ⟨q, hq, h⟩ := map_eq_ok.1 h
    cases h
    exact ⟨_, hq⟩
  · cases h

section Remaining

variable (hcolumns : t.columns = x.metadata.model.columns) (hsound : t.Sound)

include hcolumns hsound

/-- The rows that remain are the last of all matching rows in order. -/
theorem remaining_suffix (hready : x.Ready t req) {after : Option Predicate}
    (hafter : x.keyset (x.sortOf req) req.spec.pagination = .ok after)
    (hform : ∀ p ∈ after, (t.condition? p).isSome = true) :
    x.remaining t req <:+ x.ordered t req := by
  rw [remaining_eq hafter]
  refine (List.drop_suffix _ _).trans (filter_suffix ?_)
  have hordered := matching_ordered hready hcolumns hsound
  refine List.Pairwise.imp_of_mem ?_ (Table.sort_pairwise hordered)
  intro a b ha hb hab
  cases after with
  | none => exact fun _ => rfl
  | some p =>
    obtain ⟨position, hp⟩ := after_of_keyset hafter
    have hmem {row : Row} (hrow : row ∈ x.ordered t req) :=
      hordered row ((ordered_perm x t req).mem_iff.1 hrow)
    exact Table.after_upward (x.sortOf_ne_nil req) hp (hform p rfl) (hmem ha) (hmem hb) hab

/-- The reply behind an envelope holds the first of the rows that remain, and one row more than the
slice, all of which have been read. Its total, if it was asked for, is that of all matching rows. -/
theorem reply_of_execute {now : DateTime} {e : Envelope}
    (h : (x.execute t.run req now).result = .ok e) {size : Nat}
    (hsize : req.spec.pagination.limit = size) :
    x.remaining t req <:+ x.ordered t req ∧
    ∃ q reply, t.select q.predicates = .ok (x.matching t req) ∧
      (reply.rows = (x.remaining t req).take (size + 1) ∧ ∀ row ∈ reply.rows, t.reads row = true) ∧
      reply.total = (if req.needsTotal then some (x.matching t req).length else none) ∧
      (x.complete t.run req (x.sortOf req) now q (Batch.ofReply size reply)).result = .ok e := by
  have hlimit : 0 ≤ req.spec.pagination.limit := by omega
  obtain ⟨hready, -, -⟩ := ready_of_execute h hlimit
  obtain ⟨q, reply, hq, hreply, hcomplete⟩ := execute_eq_ok h
  obtain ⟨ps, after, hps, hafter, -, rfl⟩ := pageQuery_eq_ok hq
  have hpos : 0 < req.spec.pagination.limit + 1 := by omega
  obtain ⟨-, ⟨⟨rows, hselect, hrows⟩, hreads⟩, htotal⟩ := (Table.run_eq_ok hpos).1 hreply
  have hmatching : t.select ps = .ok (x.matching t req) := by
    obtain ⟨ps', hps', hmatching⟩ := hready.selects
    obtain rfl : ps = ps' := Except.ok.inj (hps.symm.trans hps')
    exact hmatching
  have hselected := Table.filter_of_select_append hmatching hselect
  rw [hsize] at hcomplete
  refine ⟨?_, _, reply, ?_, ⟨?_, hreads⟩, ?_, hcomplete⟩
  · refine remaining_suffix hcolumns hsound hready hafter ?_
    intro p hp
    exact Table.form_of_select hselect p (List.mem_append_right _ (by simpa using hp))
  · exact hmatching
  · have hsorted : Table.sort (sortKeys (x.sortOf req)) rows
        = (x.ordered t req).filter fun row => after.all fun p => t.accepts p row := by
      rw [hselected]
      exact sort_matching_filter hready hcolumns hsound _
    have hlength : (req.spec.pagination.limit + 1).toNat = size + 1 := by omega
    calc reply.rows
        = ((Table.sort (sortKeys (x.sortOf req)) rows).drop req.spec.pagination.firstRow).take
          (req.spec.pagination.limit + 1).toNat := hrows
      _ = (x.remaining t req).take (size + 1) := by rw [hsorted, hlength, remaining_eq hafter]
  · rw [Table.count?_eq_ok hmatching] at htotal
    exact (Except.ok.inj htotal).symm

end Remaining

end Executor

/-! ## Totals -/

namespace Batch

variable {b : Batch}

/-- If the total follows from the last batch of some rows, it is their number. -/
theorem knownTotal_eq_some {rows : List Row} {offset size : Nat} (hnone : b.total = none)
    (hrows : b.rows = (rows.drop offset).take size)
    (hmore : b.hasMore = decide (size < (rows.drop offset).length)) {n : Nat}
    (h : b.knownTotal offset = some n) : n = rows.length := by
  have hlength := congrArg List.length hrows
  rw [List.length_take, List.length_drop] at hlength
  rw [List.length_drop] at hmore
  simp only [knownTotal, hnone, hmore] at h
  split at h
  · cases h
  · rename_i hlast
    rw [decide_eq_true_eq, not_lt] at hlast
    split at h
    · cases h
    · rename_i hempty
      rw [Option.some.injEq] at h
      by_cases hoffset : offset = 0
      · omega
      · -- a batch that is not empty starts before the end
        have hne : b.rows ≠ [] := by
          intro hnil
          apply hempty
          simp [hnil, hoffset]
        have hpos := List.length_pos_of_ne_nil hne
        omega

theorem knownTotal_of_some {n : Nat} (h : b.total = some n) (offset : Nat) :
    b.knownTotal offset = some n := by
  simp only [knownTotal, h]

/-- Only a last batch needs a count. -/
theorem hasMore_of_needsCount {pagination : Pagination} (h : b.needsCount pagination = true) :
    b.hasMore = false := by
  cases pagination with
  | window w =>
    simp only [needsCount, Bool.and_eq_true, Bool.not_eq_true'] at h
    exact h.1.1.2
  | _ => cases h

/-- A window of which the rows tell the total has one unless rows follow. -/
theorem knownTotal_eq_none_iff {w : RowWindow} (hnone : b.total = none)
    (hneeds : b.needsCount (.window w) = false) :
    b.knownTotal w.startRow = none ↔ b.hasMore = true := by
  simp only [needsCount, hnone, Option.isNone_none, Bool.true_and] at hneeds
  simp only [knownTotal, hnone]
  cases hmore : b.hasMore with
  | true => simp
  | false =>
    rw [hmore, Bool.not_false, Bool.true_and] at hneeds
    rw [hneeds]
    simp

end Batch

namespace Executor

variable {x : Executor} {t : Table} {req : ExecutionRequest}

/-- The batch behind an envelope, and how its total was found. -/
theorem batch_of_execute (hcolumns : t.columns = x.metadata.model.columns) (hsound : t.Sound)
    {now : DateTime} {e : Envelope} (h : (x.execute t.run req now).result = .ok e) {size : Nat}
    (hsize : req.spec.pagination.limit = size) :
    ∃ (b : Batch) (total : Option Nat), b.rows = (x.remaining t req).take size ∧
      b.hasMore = decide (size < (x.remaining t req).length) ∧
      b.total = (if req.needsTotal then some (x.matching t req).length else none) ∧
      x.envelope req (x.sortOf req) now { b with total } = .ok e ∧
      (b.needsCount req.spec.pagination = true → total = some (x.matching t req).length) ∧
      (b.needsCount req.spec.pagination = false →
        total = if req.spec.pagination.isCursor then b.total
          else b.knownTotal req.spec.pagination.firstRow) := by
  obtain ⟨-, q, reply, hselect, ⟨hrows, -⟩, hasked, hcomplete⟩ :=
    reply_of_execute hcolumns hsound h hsize
  rw [ofReply_take hrows] at hcomplete
  obtain ⟨total, henvelope, hcounted, hknown⟩ := complete_eq_ok hcomplete
  refine ⟨_, total, rfl, rfl, hasked, henvelope, ?_, hknown⟩
  intro hneeds
  obtain ⟨counted, hrun, rfl⟩ := hcounted hneeds
  rw [run_countQuery hselect] at hrun
  cases hrun
  rfl

/-- An envelope shows the first of the rows that remain. -/
theorem records_of_execute (hcolumns : t.columns = x.metadata.model.columns) (hsound : t.Sound)
    {now : DateTime} {e : Envelope} (h : (x.execute t.run req now).result = .ok e)
    (hlimit : 0 ≤ req.spec.pagination.limit) :
    ((x.remaining t req).take req.spec.pagination.limit.toNat).mapM x.visibleRecord
      = .ok e.records := by
  obtain ⟨size, hsize⟩ := Int.eq_ofNat_of_zero_le hlimit
  obtain ⟨b, total, hrows, -, -, henvelope, -, -⟩ := batch_of_execute hcolumns hsound h hsize
  have htoNat : req.spec.pagination.limit.toNat = size := by omega
  rw [htoNat, ← hrows]
  exact (envelope_eq_ok henvelope).1

/-- An envelope of a numbered slice is made of rows that have been read. -/
theorem readsSlice_of_execute (hcolumns : t.columns = x.metadata.model.columns) (hsound : t.Sound)
    (hnumbered : req.spec.pagination.isCursor = false) (hlimit : 0 ≤ req.spec.pagination.limit)
    {now : DateTime} {e : Envelope} (h : (x.execute t.run req now).result = .ok e) :
    x.ReadsSlice t req req.spec.pagination := by
  obtain ⟨size, hsize⟩ := Int.eq_ofNat_of_zero_le hlimit
  obtain ⟨-, q, reply, -, ⟨hrows, hreads⟩, -⟩ := reply_of_execute hcolumns hsound h hsize
  have hlength : (req.spec.pagination.limit + 1).toNat = size + 1 := by omega
  unfold ReadsSlice
  rwa [hlength, ← remaining_of_not_isCursor hnumbered, ← hrows]

/-- A numbered slice is answered, if its numbers are not too great for the store and its rows can be
read. -/
theorem execute_numbered (hcolumns : t.columns = x.metadata.model.columns) (hsound : t.Sound)
    (hready : x.Ready t req) (pagination : Pagination) (hnumbered : pagination.isCursor = false)
    (hlimit : 0 ≤ pagination.limit) (hfirst : (pagination.firstRow : Int) ≤ greatestInteger)
    (hsize : pagination.limit + 1 ≤ greatestInteger) (hreads : x.ReadsSlice t req pagination)
    (now : DateTime) :
    ∃ e, (x.execute t.run (req.paged pagination) now).result = .ok e ∧
      (((x.ordered t req).drop pagination.firstRow).take pagination.limit.toNat).mapM
        x.visibleRecord = .ok e.records := by
  have hpos : 0 < pagination.limit + 1 := by omega
  obtain ⟨q, total, hq, hrun⟩ := run_paged hcolumns hsound hready pagination ⟨hpos, hsize⟩
    hfirst (keyset_of_not_isCursor hnumbered) (by simp)
  have hall : ((x.ordered t req).filter fun row => (none : Option Predicate).all fun p =>
      t.accepts p row) = x.ordered t req := List.filter_eq_self.2 fun _ _ => rfl
  rw [hall, Table.fetch_eq_ok.2 ⟨rfl, hreads⟩] at hrun
  obtain ⟨q', ps, hq', hselect, hps, -⟩ :=
    pageQuery_paged hready (keyset_of_not_isCursor hnumbered)
  obtain rfl : q = q' := Except.ok.inj (hq.symm.trans hq')
  obtain ⟨e, he⟩ : ∃ e, (x.complete t.run (req.paged pagination) (x.sortOf req) now q
      (Batch.ofReply pagination.limit ⟨_, total⟩)).result = .ok e :=
    complete_ok (hps ▸ hselect) (x.sortOf req) now (Batch.ofReply pagination.limit ⟨_, total⟩)
  have hexecute : (x.execute t.run (req.paged pagination) now).result = .ok e := by
    rw [← he]
    exact congrArg Execution.result (execute_of_reply hq hrun)
  refine ⟨e, hexecute, ?_⟩
  have hrecords := records_of_execute hcolumns hsound hexecute hlimit
  rw [remaining_of_not_isCursor hnumbered] at hrecords
  exact hrecords

section Total

variable {b : Batch} {total : Option Nat}
  (hasked : b.total = if req.needsTotal then some (x.matching t req).length else none)
  (hcounted : b.needsCount req.spec.pagination = true → total = some (x.matching t req).length)
  (hknown : b.needsCount req.spec.pagination = false →
    total = if req.spec.pagination.isCursor then b.total
      else b.knownTotal req.spec.pagination.firstRow)

include hasked hcounted hknown

/-- A total that is asked for is there. -/
theorem total_of_needsTotal (hneeded : req.needsTotal = true) :
    total = some (x.matching t req).length := by
  rw [hneeded, if_pos rfl] at hasked
  cases hneeds : b.needsCount req.spec.pagination with
  | true => exact hcounted hneeds
  | false => rw [hknown hneeds, Batch.knownTotal_of_some hasked, hasked, ite_self]

/-- A total is the number of matching rows. -/
theorem eq_of_total {size : Nat} (hrows : b.rows = (x.remaining t req).take size)
    (hmore : b.hasMore = decide (size < (x.remaining t req).length)) {n : Nat}
    (h : total = some n) : n = (x.matching t req).length := by
  cases hneeded : req.needsTotal with
  | true =>
    have htotal := total_of_needsTotal hasked hcounted hknown hneeded
    exact Option.some.inj (h.symm.trans htotal)
  | false =>
    rw [hneeded, if_neg Bool.false_ne_true] at hasked
    cases hneeds : b.needsCount req.spec.pagination with
    | true => exact Option.some.inj (h.symm.trans (hcounted hneeds))
    | false =>
      have htotal := hknown hneeds
      cases hcursor : req.spec.pagination.isCursor with
      | true =>
        rw [hcursor, if_pos rfl, hasked, h] at htotal
        cases htotal
      | false =>
        rw [hcursor, if_neg Bool.false_ne_true] at htotal
        rw [remaining_of_not_isCursor hcursor] at hrows hmore
        rw [Batch.knownTotal_eq_some hasked hrows hmore (htotal.symm.trans h)]
        exact (ordered_perm x t req).length_eq

/-- A window of which no total was asked for has one unless rows follow. -/
theorem total_eq_none_iff {w : RowWindow} (hwindow : req.spec.pagination = .window w)
    (hneeded : req.needsTotal = false) : total = none ↔ b.hasMore = true := by
  rw [hneeded, if_neg Bool.false_ne_true] at hasked
  cases hneeds : b.needsCount req.spec.pagination with
  | true => simp [hcounted hneeds, Batch.hasMore_of_needsCount hneeds]
  | false =>
    have htotal := hknown hneeds
    rw [hwindow] at hneeds htotal
    rw [htotal]
    exact Batch.knownTotal_eq_none_iff hasked hneeds

end Total

/-- The envelope shows the first of the rows that remain, says exactly whether further ones follow,
and has no total but the number of all matching rows. -/
structure Exact (x : Executor) (t : Table) (req : ExecutionRequest) (e : Envelope) : Prop where
  suffix : x.remaining t req <:+ x.ordered t req
  records : ((x.remaining t req).take req.spec.pagination.limit.toNat).mapM x.visibleRecord
    = .ok e.records
  /-- There are further rows if a row comes behind those that are shown. -/
  hasMore : ∃ more, e.hasMore = some more ∧
    (more = true ↔ (x.remaining t req).drop req.spec.pagination.limit.toNat ≠ [])
  /-- The total counts all matching rows, also those before the slice. -/
  total : ∀ n, e.totalCount = some n → n = (x.matching t req).length
  total_of_needed : req.needsTotal = true → e.totalCount ≠ none
  total_of_window : ∀ w, req.spec.pagination = .window w → req.needsTotal = false →
    (e.totalCount = none ↔ e.hasMore = some true)

/-- Every envelope of a slice is exact: whatever the table holds, the conditions are, the cursor
brings, and however its total is found. The slice may be empty, but not end before it starts. -/
theorem execute_exact (hcolumns : t.columns = x.metadata.model.columns) (hsound : t.Sound)
    (hlimit : 0 ≤ req.spec.pagination.limit) {now : DateTime} {e : Envelope}
    (h : (x.execute t.run req now).result = .ok e) : x.Exact t req e := by
  obtain ⟨size, hsize⟩ := Int.eq_ofNat_of_zero_le hlimit
  obtain ⟨hsuffix, -⟩ := reply_of_execute hcolumns hsound h hsize
  obtain ⟨b, total, hrows, hmany, hasked, henvelope, hcounted, hknown⟩ :=
    batch_of_execute hcolumns hsound h hsize
  obtain ⟨-, hmore, htotal⟩ := envelope_eq_ok henvelope
  have htoNat : req.spec.pagination.limit.toNat = size := by omega
  constructor
  · exact hsuffix
  · exact records_of_execute hcolumns hsound h hlimit
  · refine ⟨_, hmore, ?_⟩
    simp only
    rw [hmany, htoNat, decide_eq_true_eq, ne_eq, List.drop_eq_nil_iff, not_le]
  · intro n hn
    rw [htotal] at hn
    obtain ⟨m, hm, rfl⟩ := Option.map_eq_some_iff.1 hn
    rw [eq_of_total hasked hcounted hknown hrows hmany hm]
    rfl
  · intro hneeded
    rw [htotal, total_of_needsTotal hasked hcounted hknown hneeded]
    simp
  · intro w hw hno
    have hiff := total_eq_none_iff hasked hcounted hknown hw hno
    rw [htotal, hmore, Option.map_eq_none_iff, hiff, Option.some.injEq]

/-- A window of the quotes of the film 7, beyond their end. -/
def beyondSeven : ExecutionRequest where
  spec := { pagination := .window { startRow := 3, endRow := 5 } }
  scope := Listing.quotesOfSeven.scope

/-- The window is empty, and the two quotes of the film are counted. -/
theorem beyondSeven_exact :
    ∃ e, (Listing.quoteListing.executor.execute Listing.quotesBefore.run beyondSeven
        { date := default }).result = .ok e ∧
      Listing.quoteListing.executor.Exact Listing.quotesBefore beyondSeven e ∧
      (e.records, e.hasMore, e.totalCount) = ([], some false, some 2) := by
  have ht : Listing.quotesBefore.IsOf ⟨Catalog.movieQuotes, 20, 100⟩ :=
    ⟨rfl, by decide +kernel, by decide +kernel⟩
  have hready : Listing.quoteListing.executor.Ready Listing.quotesBefore beyondSeven :=
    ⟨⟨_, rfl, rfl⟩, by decide +kernel⟩
  obtain ⟨e, he, -⟩ := execute_numbered rfl ht.sound hready
    (.window { startRow := 3, endRow := 5 }) rfl (by decide) (by decide) (by decide)
    (readsSlice_of_rows (by decide +kernel) _) { date := default }
  have hexact : Listing.quoteListing.executor.Exact Listing.quotesBefore beyondSeven e :=
    execute_exact rfl ht.sound (by decide) he
  have hmatching : (Listing.quoteListing.executor.matching Listing.quotesBefore beyondSeven).length
      = 2 := by decide +kernel
  have hremaining : Listing.quoteListing.executor.remaining Listing.quotesBefore beyondSeven
      = [] := by
    rw [remaining_of_not_isCursor rfl, List.drop_eq_nil_iff, (ordered_perm _ _ _).length_eq,
      hmatching]
    decide
  have hrecords : e.records = [] := by
    have h := hexact.records
    rw [hremaining] at h
    exact (Except.ok.inj h).symm
  have hmore : e.hasMore = some false := by
    obtain ⟨more, hmore, hiff⟩ := hexact.hasMore
    rw [hremaining] at hiff
    rw [hmore, Option.some.injEq, Bool.eq_false_iff]
    exact fun htrue => hiff.1 htrue rfl
  have htotal : e.totalCount = some 2 := by
    have hiff := hexact.total_of_window _ rfl rfl
    rw [hmore] at hiff
    obtain ⟨n, hn⟩ := Option.ne_none_iff_exists'.1 fun hnone => by cases hiff.1 hnone
    rw [hn, hexact.total n hn, hmatching]
    rfl
  exact ⟨e, he, hexact, by rw [hrecords, hmore, htotal]⟩

end Executor
end RecordQuery
