import RecordQuery.Proofs.Answers
import RecordQuery.Proofs.Confinement

/-!
# Hidden columns

A hidden column that a request cannot name, and that no condition of its own reads, has no influence
on the records of an answer, nor on which rows are found, how they are ordered and counted, and what
cursors are made of. Rows are however read with all their columns: where a hidden one holds what
cannot be read back, the request fails.

* `Predicate.columns`: the columns that a condition reads.
* `Row.AgreeOff`, `Table.DifferOnlyIn`: rows and tables that differ in one column only.
* `Table.run_related`: such tables reply alike to queries that do not read the column, unless only
  one of them can be read.
* `Metadata.Conceals`: what a model has to declare of a column to hide it.
* `Listing.run_oblivious`: tables that differ in a concealed column give the same answers, up to
  values in it that cannot be read back.
-/

namespace RecordQuery

open RecordQuery.Store

namespace Store

/-! ## What conditions read -/

/-- The columns that the condition reads. -/
def Predicate.columns : Predicate → List String
  | .always | .never => []
  | .isNull column | .isNotNull column => [column]
  | .compare _ column _ | .between column _ _ | .member _ column _ => [column]
  | .contains _ _ column _ | .pattern column _ => [column]
  | .and p q | .or p q => p.columns ++ q.columns

namespace Predicate

theorem closed_not_mem_columns (hidden : String) : Closed fun p => hidden ∉ p.columns where
  always := by simp [columns]
  and hp hq := by simp [columns, hp, hq]
  or hp hq := by simp [columns, hp, hq]

theorem columns_equal (column : String) (v : Value) : (equal column v).columns = [column] := by
  cases v <;> rfl

theorem columns_ordered {op : Comparison} {column : String} {v : Value} {p : Predicate}
    (h : ordered op column v = .ok p) : p.columns = [column] := by
  cases v <;> cases h <;> rfl

/-- The condition of a filter reads its column. -/
theorem columns_criterion? {column : String} {c : FilterCriterion} {p : Predicate}
    (h : criterion? column c = .ok p) : p.columns = [column] := by
  unfold criterion? at h
  cases hc : c.operator with
  | equals =>
    rw [hc] at h
    cases h
    exact columns_equal column c.value
  | notEquals =>
    rw [hc] at h
    cases h
    cases c.value <;> rfl
  | gt | gte | lt | lte =>
    rw [hc] at h
    exact columns_ordered h
  | isNull | isNotNull | regex =>
    rw [hc] at h
    cases h
    rfl
  | isIn | notIn | contains | startsWith | endsWith =>
    rw [hc] at h
    obtain ⟨_, -, rfl⟩ := map_eq_ok.1 h
    rfl
  | between =>
    rw [hc] at h
    obtain ⟨items, -, h⟩ := bind_eq_ok.1 h
    split at h
    · cases h
      rfl
    · cases h
  | custom =>
    rw [hc] at h
    cases h

theorem columns_beyond {column : String} {direction : Direction} {v : Value} {p : Predicate}
    (h : beyond column direction v = .ok p) : ∀ name ∈ p.columns, name = column := by
  intro name hname
  unfold beyond at h
  split at h
  · cases h
    simpa [columns] using hname
  · rw [columns_ordered h] at hname
    exact List.mem_singleton.1 hname
  · cases h
    cases hname
  · obtain ⟨q, hq, rfl⟩ := map_eq_ok.1 h
    simpa [columns, columns_ordered hq] using hname

theorem not_mem_columns_search {hidden : String} {s : SearchSpec} (h : hidden ∉ s.fields) :
    hidden ∉ (search s).columns := by
  apply (closed_not_mem_columns hidden).disjunction
  intro p hp hmem
  obtain ⟨name, hname, rfl⟩ := List.mem_map.1 hp
  rw [columns, List.mem_singleton] at hmem
  exact h (hmem ▸ hname)

theorem not_mem_columns_after {hidden : String} {sort : List SortCriterion}
    {position : List Value} {p : Predicate} (hsort : ∀ s ∈ sort, s.field ≠ hidden)
    (h : after sort position = .ok p) : hidden ∉ p.columns := by
  refine (closed_not_mem_columns hidden).after ?_ h
  intro s hs v
  constructor
  · intro hmem
    rw [columns_equal, List.mem_singleton] at hmem
    exact hsort s hs hmem.symm
  · intro p hp hmem
    exact hsort s hs (columns_beyond hp hidden hmem).symm

end Predicate

/-! ## Rows that differ in one column -/

/-- The rows hold the same in all columns but one. -/
def Row.AgreeOff (hidden : String) (row row' : Row) : Prop :=
  ∀ name, name ≠ hidden → row.cell name = row'.cell name

theorem Row.agreeOff_of_cell (hidden : String) (before : Row) (c c' : Cell) :
    Row.AgreeOff hidden (before ++ [(hidden, c)]) (before ++ [(hidden, c')]) := by
  intro name hname
  have hbeq : (name == hidden) = false := beq_false_of_ne hname
  simp only [Row.cell, List.lookup_append, List.lookup_cons, hbeq]

/-- The condition says the same of both rows. -/
structure Condition.Levels (row row' : Row) (c : Condition) : Prop where
  truth : c.truth row = c.truth row'
  breaks : c.breaks row = c.breaks row'

theorem Condition.Levels.and {row row' : Row} {c d : Condition} (hc : c.Levels row row')
    (hd : d.Levels row row') : (Condition.and c d).Levels row row' where
  truth := by simp only [Condition.truth, hc.truth, hd.truth]
  breaks := by simp only [Condition.breaks, hc.truth, hc.breaks, hd.breaks]

theorem Condition.Levels.or {row row' : Row} {c d : Condition} (hc : c.Levels row row')
    (hd : d.Levels row row') : (Condition.or c d).Levels row row' where
  truth := by simp only [Condition.truth, hc.truth, hd.truth]
  breaks := by simp only [Condition.breaks, hc.breaks, hd.breaks]

namespace Row.AgreeOff

variable {hidden : String} {row row' : Row}

/-- A condition that does not read the column says the same of both rows. -/
theorem levels (h : row.AgreeOff hidden row') {t : Table} {p : Predicate}
    (hp : hidden ∉ p.columns) {c : Condition} (hc : t.condition? p = some c) :
    c.Levels row row' := by
  induction p generalizing c with
  | and p q ihp ihq =>
    simp only [Predicate.columns, List.mem_append, not_or] at hp
    simp only [Table.condition?, bind, Option.bind_eq_some_iff, pure, Option.some.injEq] at hc
    obtain ⟨c, hpc, d, hqd, rfl⟩ := hc
    exact (ihp hp.1 hpc).and (ihq hp.2 hqd)
  | or p q ihp ihq =>
    simp only [Predicate.columns, List.mem_append, not_or] at hp
    simp only [Table.condition?, bind, Option.bind_eq_some_iff, pure, Option.some.injEq] at hc
    obtain ⟨c, hpc, d, hqd, rfl⟩ := hc
    exact (ihp hp.1 hpc).or (ihq hp.2 hqd)
  | between column =>
    have hcell := h column (by simpa [Predicate.columns, eq_comm] using hp)
    simp only [Table.condition?, bind, Option.bind_eq_some_iff, pure, Option.some.injEq] at hc
    obtain ⟨low, -, high, -, rfl⟩ := hc
    exact ⟨by simp only [Condition.truth, hcell], rfl⟩
  | compare _ column | member _ column | contains _ _ column =>
    have hcell := h column (by simpa [Predicate.columns, eq_comm] using hp)
    obtain ⟨_, -, rfl⟩ := Option.map_eq_some_iff.1 hc
    exact ⟨by simp only [Condition.truth, hcell], rfl⟩
  | pattern column =>
    have hcell := h column (by simpa [Predicate.columns, eq_comm] using hp)
    obtain ⟨_, -, rfl⟩ := Option.map_eq_some_iff.1 hc
    exact ⟨by simp only [Condition.truth, hcell], by simp only [Condition.breaks, hcell]⟩
  | isNull column | isNotNull column =>
    have hcell := h column (by simpa [Predicate.columns, eq_comm] using hp)
    cases hc
    exact ⟨by simp only [Condition.truth, hcell], rfl⟩
  | always | never =>
    cases hc
    exact ⟨rfl, rfl⟩

theorem levels_allOf (h : row.AgreeOff hidden row') {t : Table} {ps : List Predicate}
    (hps : ∀ p ∈ ps, hidden ∉ p.columns) {cs : List Condition}
    (hcs : ps.mapM t.condition? = some cs) : (Table.allOf cs).Levels row row' := by
  have hall : ∀ c ∈ cs, c.Levels row row' := by
    intro c hc
    obtain ⟨p, hp, hpc⟩ := exists_of_mem_right (mapM_eq_some.1 hcs) hc
    exact h.levels (hps p hp) hpc
  clear hcs
  induction cs with
  | nil => exact ⟨rfl, rfl⟩
  | cons c cs ih =>
    exact (hall c List.mem_cons_self).and (ih fun d hd => hall d (List.mem_cons_of_mem _ hd))

/-- An order that does not go by the column takes both rows for the same. -/
theorem compareRows_eq (h : row.AgreeOff hidden row') {other other' : Row}
    (hother : other.AgreeOff hidden other') {keys : List SortKey}
    (hkeys : ∀ k ∈ keys, k.column ≠ hidden) :
    compareRows keys row other = compareRows keys row' other' := by
  induction keys with
  | nil => rfl
  | cons k keys ih =>
    have hk := hkeys k List.mem_cons_self
    simp only [compareRows, h k.column hk, hother k.column hk,
      ih fun k hk => hkeys k (List.mem_cons_of_mem _ hk)]

end Row.AgreeOff

/-! ## Tables that differ in one column -/

/-- The tables have the same columns, read expressions alike and have, in the same places, rows that
differ in one column only. -/
structure Table.DifferOnlyIn (hidden : String) (t t' : Table) : Prop where
  columns : t.columns = t'.columns
  names : t.characterNames = t'.characterNames
  rows : List.Forall₂ (Row.AgreeOff hidden) t.rows t'.rows

namespace Table

variable {hidden : String} {t t' : Table}

/-- Rows that an order does not tell apart are sorted alike. -/
theorem sort_related {R : Row → Row → Prop} {keys : List SortKey}
    (hR : ∀ a a' b b', R a a' → R b b' → compareRows keys a b = compareRows keys a' b')
    {rows rows' : List Row} (h : List.Forall₂ R rows rows') :
    List.Forall₂ R (sort keys rows) (sort keys rows') := by
  obtain ⟨hlength, hzip⟩ := List.forall₂_iff_zip.1 h
  have hpairs : ∀ pair ∈ rows.zip rows', R pair.1 pair.2 := fun pair hpair => hzip hpair
  -- both lists are sides of one list of pairs, which is sorted by its left sides
  let sorted := (rows.zip rows').mergeSort fun a b => compareRows keys a.1 b.1 != .gt
  have hleft : sort keys rows = sorted.map Prod.fst := by
    rw [List.map_mergeSort (s := fun a b => compareRows keys a b != .gt) fun _ _ _ _ => rfl,
      List.map_fst_zip hlength.le]
    rfl
  have hright : sort keys rows' = sorted.map Prod.snd := by
    rw [List.map_mergeSort (s := fun a b => compareRows keys a b != .gt) ?_,
      List.map_snd_zip hlength.ge]
    · rfl
    · intro a ha b hb
      rw [hR _ _ _ _ (hpairs a ha) (hpairs b hb)]
  rw [hleft, hright, List.forall₂_map_left_iff, List.forall₂_map_right_iff, List.forall₂_same]
  intro pair hpair
  exact hpairs pair ((List.mergeSort_perm _ _).mem_iff.1 hpair)

theorem filter_related {R : Row → Row → Prop} {p : Row → Bool}
    (hR : ∀ a b, R a b → p a = p b) {rows rows' : List Row} (h : List.Forall₂ R rows rows') :
    List.Forall₂ R (rows.filter p) (rows'.filter p) := by
  induction h with
  | nil => exact .nil
  | @cons a b _ _ hab _ ih =>
    rw [List.filter_cons, List.filter_cons, hR a b hab]
    split
    · exact .cons hab ih
    · exact ih

theorem all_congr_of_forall₂ {R : Row → Row → Prop} {p p' : Row → Bool}
    (hR : ∀ a b, R a b → p a = p' b) {rows rows' : List Row} (h : List.Forall₂ R rows rows') :
    rows.all p = rows'.all p' := by
  induction h with
  | nil => rfl
  | @cons a b _ _ hab _ ih => rw [List.all_cons, List.all_cons, hR a b hab, ih]

theorem any_congr_of_forall₂ {R : Row → Row → Prop} {p : Row → Bool}
    (hR : ∀ a b, R a b → p a = p b) {rows rows' : List Row} (h : List.Forall₂ R rows rows') :
    rows.any p = rows'.any p := by
  induction h with
  | nil => rfl
  | @cons a b _ _ hab _ ih => rw [List.any_cons, List.any_cons, hR a b hab, ih]

/-- Rows of the two tables that differ in one column only. -/
structure Twins (hidden : String) (t t' : Table) (row row' : Row) : Prop where
  agree : row.AgreeOff hidden row'
  left : row ∈ t.rows
  right : row' ∈ t'.rows

variable (ht : t.DifferOnlyIn hidden t')

include ht

theorem forall_twins : List.Forall₂ (Twins hidden t t') t.rows t'.rows := by
  obtain ⟨hlength, hzip⟩ := List.forall₂_iff_zip.1 ht.rows
  refine List.forall₂_iff_zip.2 ⟨hlength, fun {row row'} hpair => ?_⟩
  obtain ⟨hleft, hright⟩ := List.of_mem_zip hpair
  exact ⟨hzip hpair, hleft, hright⟩

theorem select_related {ps : List Predicate} (hps : ∀ p ∈ ps, hidden ∉ p.columns) :
    Matched (List.Forall₂ (Twins hidden t t')) (t.select ps) (t'.select ps) := by
  have hconditions : ps.mapM t'.condition? = ps.mapM t.condition? := by
    rw [funext (condition?_congr ⟨ht.columns, ht.names⟩)]
  unfold select
  rw [hconditions]
  cases hcs : ps.mapM t.condition? with
  | none => exact .error _
  | some cs =>
    have hlevels (row row' : Row) (h : row.AgreeOff hidden row') := h.levels_allOf hps hcs
    have hany : t.rows.any (allOf cs).breaks = t'.rows.any (allOf cs).breaks :=
      any_congr_of_forall₂ (fun row row' h => (hlevels row row' h).breaks) ht.rows
    simp only [hany]
    split
    · exact .error _
    · refine .ok (filter_related ?_ (forall_twins ht))
      intro row row' h
      rw [Condition.holds, Condition.holds, (hlevels row row' h.agree).truth]

theorem count?_eq {q : StoreQuery} (hps : ∀ p ∈ q.predicates, hidden ∉ p.columns) :
    t.count? q = t'.count? q := by
  have hselect := select_related ht hps
  unfold count?
  rw [hselect.map_eq fun _ _ h => congrArg some h.length_eq]

end Table

/-- The query does not read the column. -/
structure StoreQuery.Avoids (hidden : String) (q : StoreQuery) : Prop where
  predicates : ∀ p ∈ q.predicates, hidden ∉ p.columns
  after : ∀ p ∈ q.after, hidden ∉ p.columns
  orderBy : ∀ k ∈ q.orderBy, k.column ≠ hidden

namespace Table

variable {hidden : String} {t t' : Table} {q : StoreQuery}

/-- Every cell that the table has in the column can be read. -/
def ReadsColumn (t : Table) (name : String) : Prop :=
  ∀ row ∈ t.rows, ∀ c ∈ t.columns, c.name = name → (c.type.read? (row.cell name)).isSome = true

instance (t : Table) (name : String) : Decidable (t.ReadsColumn name) :=
  inferInstanceAs (Decidable (∀ row ∈ t.rows, ∀ c ∈ t.columns, c.name = name →
    (c.type.read? (row.cell name)).isSome = true))

/-- A column that can be read does not make its rows unreadable. -/
theorem Twins.reads_eq (hcolumns : t.columns = t'.columns) {row row' : Row}
    (h : Twins hidden t t' row row') (hreads : t.ReadsColumn hidden)
    (hreads' : t'.ReadsColumn hidden) : t.reads row = t'.reads row' := by
  unfold reads
  rw [← hcolumns, Bool.eq_iff_iff, List.all_eq_true, List.all_eq_true]
  refine forall₂_congr fun c hc => ?_
  by_cases hname : c.name = hidden
  · rw [hname, hreads row h.left c hc hname, hreads' row' h.right c (hcolumns ▸ hc) hname]
  · rw [h.agree c.name hname]

/-- Two replies are alike, or only one of the tables can be read, which may differ. -/
inductive Replied {α : Type} (differ : Prop) (R : α → α → Prop) :
    Except StoreFailure α → Except StoreFailure α → Prop where
  | matched {a b : Except StoreFailure α} (h : Matched R a b) : Replied differ R a b
  | unreadLeft (h : differ) (b : α) : Replied differ R (.error unreadable) (.ok b)
  | unreadRight (h : differ) (a : α) : Replied differ R (.ok a) (.error unreadable)

namespace Replied

variable {α : Type} {differ : Prop} {R : α → α → Prop} {a b : Except StoreFailure α}

theorem matched_of_iff (h : Replied differ R a b)
    (hiff : a = .error unreadable ↔ b = .error unreadable) : Matched R a b := by
  cases h with
  | matched h => exact h
  | unreadLeft => cases hiff.1 rfl
  | unreadRight => cases hiff.2 rfl

theorem matched_of_not (h : Replied differ R a b) (hnot : ¬ differ) : Matched R a b := by
  cases h with
  | matched h => exact h
  | unreadLeft h => exact absurd h hnot
  | unreadRight h => exact absurd h hnot

end Replied

/-- The hidden column decides whether rows can be read. -/
abbrev Undecided (hidden : String) (t t' : Table) : Prop :=
  ¬ (t.ReadsColumn hidden ∧ t'.ReadsColumn hidden)

variable (ht : t.DifferOnlyIn hidden t')

include ht

theorem fetch_related {rows rows' : List Row} (h : List.Forall₂ (Twins hidden t t') rows rows') :
    Replied (Undecided hidden t t') (List.Forall₂ (Twins hidden t t')) (t.fetch rows)
      (t'.fetch rows') := by
  have hdiffer (hne : rows.all t.reads ≠ rows'.all t'.reads) : Undecided hidden t t' :=
    fun ⟨hreads, hreads'⟩ =>
      hne (all_congr_of_forall₂ (fun _ _ h => h.reads_eq ht.columns hreads hreads') h)
  unfold fetch
  cases hleft : rows.all t.reads with
  | true =>
    cases hright : rows'.all t'.reads with
    | true => exact .matched (.ok h)
    | false => exact .unreadRight (hdiffer (by simp [hleft, hright])) rows
  | false =>
    cases hright : rows'.all t'.reads with
    | true => exact .unreadLeft (hdiffer (by simp [hleft, hright])) rows'
    | false => exact .matched (.error unreadable)

theorem slice_related (hq : q.Avoids hidden) :
    Replied (Undecided hidden t t') (List.Forall₂ (Twins hidden t t')) (t.slice q)
      (t'.slice q) := by
  have hconditions : ∀ p ∈ q.predicates ++ q.after.toList, hidden ∉ p.columns := by
    intro p hp
    rcases List.mem_append.1 hp with hp | hp
    · exact hq.predicates p hp
    · exact hq.after p (by simpa using hp)
  have hselect := select_related ht hconditions
  unfold slice
  split
  · exact .matched (.ok .nil)
  split
  · exact .matched (.error _)
  · generalize t.select (q.predicates ++ q.after.toList) = rows,
      t'.select (q.predicates ++ q.after.toList) = rows' at hselect
    cases hselect with
    | error e => exact .matched (.error e)
    | ok hrows =>
      apply fetch_related ht
      apply List.forall₂_take
      apply List.forall₂_drop
      exact sort_related (fun _ _ _ _ ha hb => ha.agree.compareRows_eq hb.agree hq.orderBy) hrows

/-- Tables that differ in a column reply alike to a query that does not ask for it, unless only one
of them can be read. -/
theorem run_related (hq : q.Avoids hidden) :
    Replied (Undecided hidden t t') (StoreReply.Alike (Row.AgreeOff hidden)) (t.run q)
      (t'.run q) := by
  unfold run
  rw [count?_eq ht hq.predicates]
  cases t'.count? q with
  | error e => exact .matched (.error e)
  | ok total =>
    have hslice := slice_related ht hq
    generalize t.slice q = rows, t'.slice q = rows' at hslice
    cases hslice with
    | unreadLeft h rows' => exact .unreadLeft h (StoreReply.mk rows' total)
    | unreadRight h rows => exact .unreadRight h (StoreReply.mk rows total)
    | matched h =>
      cases h with
      | error e => exact .matched (.error e)
      | ok hrows => exact .matched (.ok ⟨hrows.imp fun _ _ h => h.agree, rfl⟩)

/-- Where the column can be read, what is read of one table can be read of the other. -/
theorem run_eq_unreadable_iff (hq : q.Avoids hidden) (hreads : t.ReadsColumn hidden)
    (hreads' : t'.ReadsColumn hidden) :
    t.run q = .error unreadable ↔ t'.run q = .error unreadable := by
  have hreplies := (run_related ht hq).matched_of_not (not_not.2 ⟨hreads, hreads'⟩)
  generalize t.run q = reply, t'.run q = reply' at hreplies
  cases hreplies with
  | error e => rfl
  | ok h => simp

omit ht in
/-- No row is read to count. -/
theorem run_ne_unreadable (hlimit : q.limit ≤ 0) : t.run q ≠ .error unreadable := by
  have hslice : t.slice q = .ok [] := by
    unfold slice
    rw [if_pos hlimit]
  unfold run
  rw [hslice]
  intro h
  cases hcount : t.count? q with
  | ok total =>
    rw [hcount] at h
    cases h
  | error e =>
    rw [hcount] at h
    obtain rfl : e = unreadable := Except.error.inj h
    unfold count? at hcount
    split at hcount
    · obtain hselect := map_eq_error.1 hcount
      exact absurd (select_eq_error hselect) (by decide)
    · cases hcount

end Table
end Store

/-! ## Models that hide a column -/

/-- The model hides the column, and lets nothing go by it: no field of a request, no default, and no
condition of its own. -/
structure Metadata.Conceals (md : Metadata) (column : String) : Prop where
  hidden : column ∈ md.model.hiddenFields
  filterable : column ∉ md.model.filterable
  sortable : column ∉ md.model.sortable
  searchable : column ∉ md.model.searchable
  defaultSort : ∀ s ∈ md.model.defaultSort, s.field ≠ column
  uniqueKey : md.model.uniqueKey ≠ column
  softDelete : md.model.softDeleteField ≠ some column
  /-- A filter of the model's own is a condition on the column of its field and on a value. -/
  custom : ∀ e ∈ md.model.customFilters, ∀ v, column ∉ (e.2 e.1 v).columns

theorem Metadata.Conceals.sort_ne {md : Metadata} {column : String} (h : md.Conceals column)
    {requested : List SortCriterion} (hrequested : ∀ s ∈ requested, s.field ∈ md.model.sortable) :
    ∀ s ∈ md.effectiveSort requested, s.field ≠ column := by
  have hbase : ∀ s ∈ (if requested.isEmpty then md.model.defaultSort else requested),
      s.field ≠ column := by
    intro s hs
    split at hs
    · exact h.defaultSort s hs
    · exact fun heq => h.sortable (heq ▸ hrequested s hs)
  unfold Metadata.effectiveSort
  generalize (if requested.isEmpty then md.model.defaultSort else requested) = base at hbase
  intro s hs
  simp only at hs
  split at hs
  · rcases List.mem_append.1 hs with hs | hs
    · exact hbase s hs
    · rw [List.mem_singleton.1 hs]
      exact h.uniqueKey
  · exact hbase s hs

namespace Executor

variable {x : Executor} {hidden : String}

/-! ## Queries -/

theorem columns_filterPredicate (hx : x.metadata.Conceals hidden) {c : FilterCriterion}
    (hc : c.Whitelisted x.metadata) {p : Predicate} (h : x.filterPredicate c = .ok p) :
    hidden ∉ p.columns := by
  obtain ⟨column, hcolumn, h⟩ := bind_eq_ok.1 h
  obtain ⟨rfl, -⟩ := Metadata.column?_eq_ok hcolumn
  by_cases hop : c.operator = .custom
  · rw [if_pos hop] at h
    cases hfilter : x.metadata.customFilter? c.field with
    | none =>
      rw [hfilter] at h
      cases h
    | some condition =>
      rw [hfilter] at h
      cases h
      obtain ⟨before, after, hmem, -⟩ := List.lookup_eq_some_iff.1 hfilter
      exact hx.custom (c.field, condition) (by rw [hmem]; simp) c.value
  · rw [if_neg hop] at h
    rw [Predicate.columns_criterion? h, List.mem_singleton]
    exact fun heq => hx.filterable (heq ▸ hc.field)

theorem columns_keyset {sort : List SortCriterion} (hsort : ∀ s ∈ sort, s.field ≠ hidden)
    {pagination : Pagination} {after : Option Predicate}
    (h : x.keyset sort pagination = .ok after) : ∀ p ∈ after, hidden ∉ p.columns := by
  intro p hp
  unfold keyset at h
  split at h
  · obtain ⟨_, -, h⟩ := bind_eq_ok.1 h
    obtain ⟨q, hq, rfl⟩ := map_eq_ok.1 h
    cases hp
    exact Predicate.not_mem_columns_after hsort hq
  · cases h
    cases hp

/-- No condition of a whitelisted specification reads a concealed column. -/
theorem columns_predicates (hx : x.metadata.Conceals hidden) {req : ExecutionRequest}
    (hspec : req.spec.Whitelisted x.metadata) (hscope : ∀ p ∈ req.scope, hidden ∉ p.columns)
    {ps : List Predicate} (h : x.predicates req = .ok ps) : ∀ p ∈ ps, hidden ∉ p.columns := by
  obtain ⟨filters, visibility, hfilters, hvisibility, rfl⟩ := predicates_eq_ok h
  intro p hp
  simp only [List.mem_append] at hp
  rcases hp with ((hp | hp) | hp) | hp
  · obtain ⟨c, hc, hpc⟩ := exists_of_mem_right hfilters hp
    exact columns_filterPredicate hx (hspec.filters c hc) hpc
  · obtain ⟨s, hs, rfl⟩ : ∃ s, req.spec.search = some s ∧ Predicate.search s = p := by
      simpa using hp
    apply Predicate.not_mem_columns_search
    exact fun hmem => hx.searchable ((hspec.search s hs).fields hidden hmem)
  · rw [visibility_eq_ok hvisibility] at hp
    split at hp
    · rename_i field hfield
      split at hp
      · cases hp
      · rw [List.mem_singleton.1 hp, Predicate.columns, List.mem_singleton]
        exact fun heq => hx.softDelete (heq ▸ hfield)
    · cases hp
  · exact hscope p hp

/-- No query of a whitelisted specification reads a concealed column. -/
theorem avoids_of_pageQuery (hx : x.metadata.Conceals hidden) {req : ExecutionRequest}
    (hspec : req.spec.Whitelisted x.metadata) (hscope : ∀ p ∈ req.scope, hidden ∉ p.columns)
    {q : StoreQuery} (h : x.pageQuery req (x.sortOf req) = .ok q) :
    ∀ query ∈ [q, countQuery q], query.Avoids hidden := by
  obtain ⟨ps, after, hps, hafter, -, rfl⟩ := pageQuery_eq_ok h
  have hconditions := columns_predicates hx hspec hscope hps
  have hsort : ∀ s ∈ x.sortOf req, s.field ≠ hidden :=
    hx.sort_ne fun s hs => (hspec.sort s hs).1
  intro query hquery
  rcases List.mem_pair.1 hquery with rfl | rfl
  · refine ⟨hconditions, columns_keyset hsort hafter, ?_⟩
    intro k hk
    obtain ⟨s, hs, rfl⟩ := List.mem_map.1 hk
    exact hsort s hs
  · exact ⟨hconditions, by simp [countQuery], by simp [countQuery]⟩

/-! ## Records and cursors -/

theorem visibleRecord_congr (hx : x.metadata.Conceals hidden) {row row' : Row}
    (h : row.AgreeOff hidden row') : x.visibleRecord row = x.visibleRecord row' := by
  have hvisible : x.metadata.visible (x.record row) = x.metadata.visible (x.record row') := by
    unfold Metadata.visible record
    rw [List.filter_map, List.filter_map]
    apply List.map_congr_left
    intro c hc
    have hname : c.name ≠ hidden := by
      rintro rfl
      have hnot := (List.mem_filter.1 hc).2
      simp [hx.hidden] at hnot
    rw [h c.name hname]
  rw [visibleRecord, visibleRecord, hvisible]

theorem cursor_congr {sort : List SortCriterion} (hsort : ∀ s ∈ sort, s.field ≠ hidden)
    {row row' : Row} (h : row.AgreeOff hidden row') : x.cursor sort row = x.cursor sort row' := by
  have hvalues : x.sortValues sort row = x.sortValues sort row' := by
    apply List.map_congr_left
    intro s hs
    rw [get?_record, get?_record, h s.field (hsort s hs)]
  rw [cursor, cursor, hvalues]

/-- Of the two queries of an execution, only that for the page can meet rows that cannot be read. -/
theorem result_eq_unreadable {req : ExecutionRequest} {q : StoreQuery}
    (hq : x.pageQuery req (x.sortOf req) = .ok q) (t : Table) (now : Calendar.DateTime) :
    (x.execute t.run req now).result = x.failed q Table.unreadable
      ↔ t.run q = .error Table.unreadable := by
  unfold execute
  simp only [show x.pageQuery req (x.metadata.effectiveSort req.spec.sort) = .ok q from hq]
  cases hreply : t.run q with
  | error e => simp [failed]
  | ok reply =>
    simp only [reduceCtorEq, iff_false]
    unfold complete
    split
    · simp only
      cases hcount : t.run (countQuery q) with
      | error e =>
        simp only [failed, Except.error.injEq, ExecutionError.store.injEq, not_and]
        rintro - - rfl
        exact Table.run_ne_unreadable le_rfl hcount
      | ok reply => simp [finish, mapError_eq_error, failed]
    · simp [finish, mapError_eq_error, failed]

/-- Tables that differ in a concealed column give the same execution of a whitelisted
specification, if none of them or both have rows that cannot be read. -/
theorem execute_oblivious (hx : x.metadata.Conceals hidden) {req : ExecutionRequest}
    (hspec : req.spec.Whitelisted x.metadata) (hscope : ∀ p ∈ req.scope, hidden ∉ p.columns)
    {t t' : Table} (ht : t.DifferOnlyIn hidden t')
    (hunread : ∀ q, x.pageQuery req (x.sortOf req) = .ok q →
      (t.run q = .error Table.unreadable ↔ t'.run q = .error Table.unreadable))
    (now : Calendar.DateTime) : x.execute t.run req now = x.execute t'.run req now := by
  have hsort : ∀ s ∈ x.sortOf req, s.field ≠ hidden :=
    hx.sort_ne fun s hs => (hspec.sort s hs).1
  have hrows (row row' : Row) (h : row.AgreeOff hidden row') :
      x.Indistinct (x.sortOf req) row row' :=
    ⟨visibleRecord_congr hx h, cursor_congr hsort h⟩
  apply execute_related
  intro q hq query hquery
  have havoids := avoids_of_pageQuery hx hspec hscope hq query hquery
  have hiff : t.run query = .error Table.unreadable ↔ t'.run query = .error Table.unreadable := by
    rcases List.mem_pair.1 hquery with rfl | rfl
    · exact hunread query hq
    · exact iff_of_false (Table.run_ne_unreadable le_rfl) (Table.run_ne_unreadable le_rfl)
  have hreplies := (Table.run_related ht havoids).matched_of_iff hiff
  generalize t.run query = reply, t'.run query = reply' at hreplies
  cases hreplies with
  | error e => exact .error e
  | ok h => exact .ok ⟨h.rows.imp hrows, h.total⟩

end Executor

/-! ## Requests -/

namespace Listing

variable {l : Listing}

/-- The request asks for rows of the table that cannot be read back. -/
def Unread (l : Listing) (t : Table) (req : ListingRequest) : Prop :=
  ∃ format execution q, l.plan req = .ok (format, execution) ∧
    l.executor.pageQuery execution (l.executor.sortOf execution) = .ok q ∧
    t.run q = .error Table.unreadable

section

variable {t : Table} {req : ListingRequest} {format : Format} {execution : ExecutionRequest}
  {q : StoreQuery}

theorem unread_iff (hplan : l.plan req = .ok (format, execution))
    (hq : l.executor.pageQuery execution (l.executor.sortOf execution) = .ok q) :
    l.Unread t req ↔ t.run q = .error Table.unreadable := by
  constructor
  · rintro ⟨_, _, _, hplan', hq', hrun⟩
    cases hplan.symm.trans hplan'
    cases hq.symm.trans hq'
    exact hrun
  · exact fun hrun => ⟨format, execution, q, hplan, hq, hrun⟩

theorem not_unread_of_plan {e : ListingError} (hplan : l.plan req = .error e) :
    ¬ l.Unread t req := by
  rintro ⟨_, _, _, hplan', -⟩
  cases hplan.symm.trans hplan'

theorem not_unread_of_pageQuery {f : Fault} (hplan : l.plan req = .ok (format, execution))
    (hq : l.executor.pageQuery execution (l.executor.sortOf execution) = .error f) :
    ¬ l.Unread t req := by
  rintro ⟨_, _, _, hplan', hq', -⟩
  cases hplan.symm.trans hplan'
  cases hq.symm.trans hq'

/-- A request for rows that cannot be read fails for that, and only such a request does. -/
theorem run_eq_unread (hplan : l.plan req = .ok (format, execution))
    (hq : l.executor.pageQuery execution (l.executor.sortOf execution) = .ok q)
    (now : Calendar.DateTime) :
    l.run t.run req now
        = .error (.execution (.store l.executor.metadata.model.name q.timeout Table.unreadable))
      ↔ l.Unread t req := by
  rw [unread_iff hplan hq, ← Executor.result_eq_unreadable hq t now]
  unfold run
  simp only [hplan, bind, Except.bind]
  cases (l.executor.execute t.run execution now).result with
  | error e => simp [Except.mapError, Executor.failed]
  | ok e =>
    refine iff_of_false ?_ (by simp [Executor.failed])
    show ¬ (format.render e).mapError ListingError.ofFault = _
    simp [mapError_eq_error, ListingError.ofFault]

end

/-- A column that a model conceals has an influence on an answer only by values that cannot be read
back: whatever a request asks for, in any grammar and format, tables that differ in that column only
give it the same answer or the same error exactly if the rows that it asks for cannot be read from
either of them, or can be read from both. Where the column has no such values, the answers are the
same. -/
theorem run_oblivious {md : Metadata} (hl : l.IsFor md) {hidden : String}
    (hconceals : md.Conceals hidden) {t t' : Table} (ht : t.DifferOnlyIn hidden t')
    {req : ListingRequest} (hscope : ∀ p ∈ req.scope, hidden ∉ p.columns)
    (now : Calendar.DateTime) :
    (l.run t.run req now = l.run t'.run req now ↔ (l.Unread t req ↔ l.Unread t' req)) ∧
      (t.ReadsColumn hidden → t'.ReadsColumn hidden →
        l.run t.run req now = l.run t'.run req now) := by
  have hmd : l.executor.metadata = md := hl.executor
  cases hplan : l.plan req with
  | error e =>
    simp only [run_of_plan_error hplan, not_unread_of_plan hplan, true_and, implies_true]
  | ok planned =>
    obtain ⟨format, execution⟩ := planned
    have hspec : execution.spec.Whitelisted l.executor.metadata := by
      rw [hmd, ← hl.validator]
      exact plan_whitelisted hplan
    have hx : l.executor.metadata.Conceals hidden := hmd ▸ hconceals
    have hexecution : ∀ p ∈ execution.scope, hidden ∉ p.columns := by
      rw [scope_of_plan hplan]
      exact hscope
    have hsame
        (hunread : ∀ q, l.executor.pageQuery execution (l.executor.sortOf execution) = .ok q →
          (t.run q = .error Table.unreadable ↔ t'.run q = .error Table.unreadable)) :
        l.run t.run req now = l.run t'.run req now :=
      run_congr hplan (Executor.execute_oblivious hx hspec hexecution ht hunread now)
    refine ⟨⟨fun heq => ?_, fun hiff => hsame fun q hq => ?_⟩,
      fun hreads hreads' => hsame fun q hq => ?_⟩
    · cases hq : l.executor.pageQuery execution (l.executor.sortOf execution) with
      | error f => simp only [not_unread_of_pageQuery hplan hq]
      | ok q => rw [← run_eq_unread hplan hq now, ← run_eq_unread hplan hq now, heq]
    · rwa [unread_iff hplan hq, unread_iff hplan hq] at hiff
    · have havoids := Executor.avoids_of_pageQuery hx hspec hexecution hq q (by simp)
      exact Table.run_eq_unreadable_iff ht havoids hreads hreads'

/-- A listing of films that drops what it does not know. -/
def filmListing : Listing where
  validator := lenientFilms
  executor := { metadata := ⟨Catalog.movies, 20, 100⟩ }

/-- Two films with internal notes. -/
def notedFilms (first second : Cell) : Table where
  columns := Catalog.movies.columns
  rows := [
    [("id", .text "abcdef00000040008000000000000001"), ("title", .text "Alien"),
      ("internal_notes", first)],
    [("id", .text "abcdef00000040008000000000000002"), ("title", .text "The Leak"),
      ("internal_notes", second)]]

/-- A request that filters, sorts and searches by the internal notes. -/
def probeOfNotes : ListingRequest where
  params := [("format", .text "infinite-scroll"), ("pageSize", .text "1"),
    ("filter[internal_notes][contains]", .text "leak"),
    ("sort", .text "internal_notes:desc,genre"),
    ("search", .text "leak"), ("searchFields", .text "internal_notes,title")]

/-- What the request comes to: the notes are dropped. -/
def executionOfProbe : ExecutionRequest where
  spec := {
    sort := [{ field := "genre" }]
    pagination := .cursor { pageSize := 1, size_pos := Nat.one_pos }
    search := some { term := "leak", fields := ["title"] } }

/-- Quotes as a model declares them that keeps their films to itself. -/
def quietQuotes : Model :=
  { Catalog.movieQuotes with
    filterable := ["id", "character", "sort_order", "created_at"]
    hiddenFields := ["movie_id"]
    relations := [] }

/-- A listing of quotes that does not show their films. -/
def quietListing : Listing where
  validator := .ofMetadata ⟨quietQuotes, 20, 100⟩ none true none 0
  executor := { metadata := ⟨quietQuotes, 20, 100⟩ }

/-- A quote of a film, of which nothing but its identifiers is known. -/
def quoteOf (film : Cell) : Table where
  columns := quietQuotes.columns
  rows := [[("id", numbered 1), ("movie_id", film)]]

/-- A request for any quotes. -/
def anyQuotes : ListingRequest where
  params := [("format", .text "infinite-scroll")]

/-- What the request comes to. -/
def executionOfAny : ExecutionRequest where
  spec.pagination :=
    .cursor { pageSize := 20, size_pos := Nat.succ_le_succ (Nat.zero_le 19) }

/-- What the store is asked for it. -/
def queryOfAny : StoreQuery where
  predicates := [.isNull "deleted_at"]
  orderBy := [{ column := "sort_order", direction := .asc }, { column := "id", direction := .asc }]
  limit := 21
  timeout := quietListing.executor.queryTimeout

theorem conceals_internalNotes :
    (⟨Catalog.movies, 20, 100⟩ : Metadata).Conceals "internal_notes" where
  hidden := by decide
  filterable := by decide
  sortable := by decide
  searchable := by decide
  defaultSort := by decide
  uniqueKey := by decide
  softDelete := by decide
  custom := by
    intro e he
    cases he

theorem conceals_movie : (⟨quietQuotes, 20, 100⟩ : Metadata).Conceals "movie_id" where
  hidden := by decide
  filterable := by decide
  sortable := by decide
  searchable := by decide
  defaultSort := by decide
  uniqueKey := by decide
  softDelete := by decide
  custom := by
    intro e he
    cases he

theorem differOnlyIn_notedFilms (first second first' second' : Cell) :
    (notedFilms first second).DifferOnlyIn "internal_notes" (notedFilms first' second') where
  columns := rfl
  names := rfl
  rows := .cons (Row.agreeOff_of_cell _ [("id", _), ("title", _)] _ _)
    (.cons (Row.agreeOff_of_cell _ [("id", _), ("title", _)] _ _) .nil)

theorem differOnlyIn_quoteOf (film film' : Cell) :
    (quoteOf film).DifferOnlyIn "movie_id" (quoteOf film') where
  columns := rfl
  names := rfl
  rows := .cons (Row.agreeOff_of_cell _ [("id", _)] _ _) .nil

theorem concealed_oblivious :
    (filmListing.plan probeOfNotes = .ok (.infiniteScroll, executionOfProbe) ∧
      (∃ body, filmListing.run (notedFilms (.text "a leak") .null).run probeOfNotes
        { date := default } = .ok body) ∧
      filmListing.run (notedFilms (.text "a leak") .null).run probeOfNotes { date := default }
        = filmListing.run (notedFilms .null (.text "leaks")).run probeOfNotes
          { date := default }) ∧
    quietListing.run (quoteOf (numbered 7)).run anyQuotes { date := default }
      ≠ quietListing.run (quoteOf (.integer 7)).run anyQuotes { date := default } := by
  have hplan : filmListing.plan probeOfNotes = .ok (.infiniteScroll, executionOfProbe) := rfl
  have ht : (notedFilms (.text "a leak") .null).IsOf ⟨Catalog.movies, 20, 100⟩ :=
    ⟨rfl, by decide +kernel, by decide +kernel⟩
  refine ⟨⟨hplan, ?_, ?_⟩, fun heq => ?_⟩
  · exact run_of_ready ht ⟨⟨_, rfl, rfl⟩, by decide +kernel⟩ (by decide +kernel) hplan rfl rfl rfl
      (by decide) _
  · exact (run_oblivious (l := filmListing) ⟨rfl, rfl⟩ conceals_internalNotes
      (differOnlyIn_notedFilms _ _ _ _) (by simp [probeOfNotes]) _).2 (by decide +kernel)
      (by decide +kernel)
  · have hiff := (run_oblivious (l := quietListing) ⟨rfl, rfl⟩ conceals_movie
      (differOnlyIn_quoteOf _ _) (by simp [anyQuotes]) _).1.1 heq
    have hplan : quietListing.plan anyQuotes = .ok (.infiniteScroll, executionOfAny) := rfl
    have hq : quietListing.executor.pageQuery executionOfAny
        (quietListing.executor.sortOf executionOfAny) = .ok queryOfAny := rfl
    rw [unread_iff hplan hq, unread_iff hplan hq] at hiff
    exact absurd (hiff.2 (by decide +kernel)) (by decide +kernel)

end Listing
end RecordQuery
