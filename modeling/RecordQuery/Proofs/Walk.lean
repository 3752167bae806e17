import RecordQuery.Proofs.Answers
import RecordQuery.Proofs.Slices

/-!
# Walks over a table

A client that goes on from cursor to cursor is to see a whole listing.

* `Listing.Complete`: the answers show every matching row once, in order, on full pages.
* `Table.LeadsOn`: the place of a cursor lies between its row and the next one.
* `Listing.walk_complete_iff`: a walk is complete exactly if every cursor at the end of a page leads
  on to the next page, and the rows can be read.
* `Listing.walk_complete`: so it is, where no booleans and no collections are sorted by.
-/

namespace RecordQuery

open RecordQuery.Store RecordQuery.Calendar

/-! ## Lists in pages -/

/-- A list falls into pages of a size: the first ones are full, the last one holds the rest. -/
inductive Paged {α : Type} (size : Nat) : List α → List (List α) → Prop where
  | last {rest : List α} (fits : rest.length ≤ size) : Paged size rest [rest]
  | more {rest : List α} {pages : List (List α)} (exceeds : size < rest.length)
      (tail : Paged size (rest.drop size) pages) : Paged size rest (rest.take size :: pages)

namespace Paged

variable {α : Type} {size : Nat} {rest : List α} {pages : List (List α)}

theorem ne_nil (h : Paged size rest pages) : pages ≠ [] := by cases h <;> simp

theorem flatten_eq (h : Paged size rest pages) : pages.flatten = rest := by
  induction h with
  | last => simp
  | more _ _ ih => rw [List.flatten_cons, ih, List.take_append_drop]

theorem length_eq (hsize : 0 < size) (h : Paged size rest pages) :
    pages.length = max 1 ((rest.length + size - 1) / size) := by
  induction h with
  | @last rest fits =>
    have hle : (rest.length + size - 1) / size ≤ 1 := by
      rw [← Nat.lt_succ_iff, Nat.div_lt_iff_lt_mul hsize]
      omega
    rw [List.length_singleton, max_eq_left hle]
  | @more rest pages exceeds _ ih =>
    have hone : 1 ≤ (rest.length - size + size - 1) / size := by
      rw [Nat.le_div_iff_mul_le hsize]
      omega
    have hstep : rest.length + size - 1 = (rest.length - size + size - 1) + size := by omega
    rw [List.length_cons, ih, List.length_drop, hstep, Nat.add_div_right _ hsize,
      max_eq_right hone, max_eq_right (Nat.succ_le_succ (Nat.zero_le _))]

theorem length_of_mem_dropLast (h : Paged size rest pages) :
    ∀ page ∈ pages.dropLast, page.length = size := by
  induction h with
  | last => simp
  | more exceeds tail ih =>
    intro page hpage
    rw [List.dropLast_cons_of_ne_nil tail.ne_nil] at hpage
    rcases List.mem_cons.1 hpage with rfl | hpage
    · rw [List.length_take, Nat.min_eq_left (Nat.le_of_lt exceeds)]
    · exact ih page hpage

theorem getElem?_eq (h : Paged size rest pages) {i : Nat} {page : List α}
    (hpage : pages[i]? = some page) : page = (rest.drop (i * size)).take size := by
  induction h generalizing i with
  | last fits =>
    cases i with
    | zero =>
      rw [List.getElem?_cons_zero, Option.some.injEq] at hpage
      rw [← hpage, Nat.zero_mul, List.drop_zero, List.take_of_length_le fits]
    | succ i => simp at hpage
  | more exceeds tail ih =>
    cases i with
    | zero =>
      rw [List.getElem?_cons_zero, Option.some.injEq] at hpage
      rw [← hpage, Nat.zero_mul, List.drop_zero]
    | succ i =>
      rw [List.getElem?_cons_succ] at hpage
      rw [ih hpage, List.drop_drop, Nat.succ_mul, Nat.add_comm]

end Paged

/-! ## Cursors that lead on -/

namespace Store.Table

variable {t : Table} {sort : List SortCriterion}

/-- A cursor at the row leads on to the next one: its place is not before the row itself, but is
before the next. -/
def LeadsOn (t : Table) (sort : List SortCriterion) (row next : Row) : Prop :=
  ∃ cells, t.place? sort row = some cells ∧
    comparePosition (sortKeys sort) cells row ≠ .lt ∧
    comparePosition (sortKeys sort) cells next = .lt

/-- Wherever a page ends, the cursor at its last row leads on to the first row of the next page. -/
def LeadsThrough (t : Table) (sort : List SortCriterion) (size : Nat) (rows : List Row) : Prop :=
  ∀ i row next, rows[(i + 1) * size - 1]? = some row → rows[(i + 1) * size]? = some next →
    t.LeadsOn sort row next

/-- What leads through the first page and through the rest leads through all of it. -/
theorem leadsThrough_iff {size : Nat} (hsize : 0 < size) {rows : List Row} :
    t.LeadsThrough sort size rows ↔
      (∀ row next, rows[size - 1]? = some row → rows[size]? = some next →
        t.LeadsOn sort row next) ∧ t.LeadsThrough sort size (rows.drop size) := by
  have hshift (i : Nat) : size + ((i + 1) * size - 1) = (i + 1 + 1) * size - 1 ∧
      size + (i + 1) * size = (i + 1 + 1) * size := by
    have : 1 ≤ (i + 1) * size := Nat.mul_pos (Nat.succ_pos i) hsize
    have : (i + 1 + 1) * size = (i + 1) * size + size := Nat.succ_mul (i + 1) size
    omega
  constructor
  · intro h
    refine ⟨?_, ?_⟩
    · intro row next hrow hnext
      exact h 0 row next (by simpa using hrow) (by simpa using hnext)
    · intro i row next hrow hnext
      rw [List.getElem?_drop] at hrow hnext
      exact h (i + 1) row next ((hshift i).1 ▸ hrow) ((hshift i).2 ▸ hnext)
  · rintro ⟨hfirst, hrest⟩ i row next hrow hnext
    cases i with
    | zero => exact hfirst row next (by simpa using hrow) (by simpa using hnext)
    | succ i =>
      refine hrest i row next ?_ ?_
      · rw [List.getElem?_drop, (hshift i).1]
        exact hrow
      · rw [List.getElem?_drop, (hshift i).2]
        exact hnext

theorem leadsThrough_of_length_le {size : Nat} {rows : List Row} (h : rows.length ≤ size) :
    t.LeadsThrough sort size rows := by
  intro i row next _ hnext
  have hle : size ≤ (i + 1) * size := Nat.le_mul_of_pos_left size (Nat.succ_pos i)
  rw [List.getElem?_eq_none (by omega)] at hnext
  cases hnext

/-- Without booleans and collections, cursors lead on. -/
theorem leadsOn_of_steady {row next : Row} (hnan : row.Ordered (sortKeys sort))
    (hback : ∀ s ∈ sort, t.readsBack s.field row = true)
    (hsteady : ∀ s ∈ sort, Cursor.isSteady (t.value s.field row) = true)
    (hnext : Row.Before (sortKeys sort) row next) : t.LeadsOn sort row next := by
  obtain ⟨cells, hplace, hlevel⟩ := exists_place_of_steady hnan hback hsteady
  refine ⟨cells, hplace, ?_, ?_⟩
  · rw [hlevel, compareRanks_self]
    simp
  · rw [hlevel]
    exact hnext

/-- A cursor with a boolean does not lead on. -/
theorem not_leadsOn_of_bool {row next : Row} {s : SortCriterion} (hs : s ∈ sort) {b : Bool}
    (hb : t.value s.field row = .bool b) : ¬ t.LeadsOn sort row next := by
  rintro ⟨cells, hplace, -⟩
  rw [place?_of_bool hs hb] at hplace
  cases hplace

theorem leadsThrough_of_steady (hfaithful : t.Faithful sort) (hsteady : t.Steady sort)
    {rows : List Row} (hrows : ∀ row ∈ rows, row ∈ t.rows ∧ row.Ordered (sortKeys sort))
    (hstrict : rows.Pairwise (Row.Before (sortKeys sort))) {size : Nat} (hsize : 0 < size) :
    t.LeadsThrough sort size rows := by
  intro i row next hrow hnext
  obtain ⟨hmem, hnan⟩ := hrows row (List.mem_of_getElem? hrow)
  refine leadsOn_of_steady hnan (hfaithful.back row hmem) (hsteady row hmem) ?_
  obtain ⟨hlt, rfl⟩ := List.getElem?_eq_some_iff.1 hnext
  obtain ⟨hlt', rfl⟩ := List.getElem?_eq_some_iff.1 hrow
  have hpos : 0 < (i + 1) * size := Nat.mul_pos (Nat.succ_pos i) hsize
  exact List.pairwise_iff_getElem.1 hstrict _ _ hlt' hlt (by omega)

end Store.Table

section Neighbours

variable {keys : List SortKey} {before after : List Row} {row next : Row} {p : Row → Bool}

/-- If a condition that holds on from a row on sets in between two neighbours, it keeps the second
one and all that follows it. -/
theorem filter_of_neighbours (hstrict : (before ++ row :: next :: after).Pairwise (Row.Before keys))
    (hp : ∀ a b, p a = true → Row.Before keys a b → p b = true) (hrow : p row = false)
    (hnext : p next = true) : (before ++ row :: next :: after).filter p = next :: after := by
  obtain ⟨-, htail, hbefore⟩ := List.pairwise_append.1 hstrict
  obtain ⟨hrest, hafter⟩ := List.pairwise_cons.1 (List.pairwise_cons.1 htail).2
  have hnone : ∀ r ∈ before, ¬ p r = true := by
    intro r hr hpast
    have hpastRow := hp r row hpast (hbefore r hr row List.mem_cons_self)
    rw [hrow] at hpastRow
    cases hpastRow
  have hall : ∀ r ∈ next :: after, p r = true := by
    intro r hr
    rcases List.mem_cons.1 hr with rfl | hr
    · exact hnext
    · exact hp next r hnext (hrest r hr)
  rw [List.filter_append, List.filter_eq_nil_iff.2 hnone, List.nil_append,
    List.filter_cons_of_neg (by simp [hrow]), List.filter_eq_self.2 hall]

/-- If the second of two neighbours is the first row that a condition keeps, the condition sets in
between them. -/
theorem neighbours_of_filter (hstrict : (before ++ row :: next :: after).Pairwise (Row.Before keys))
    {others : List Row} (h : (before ++ row :: next :: after).filter p = next :: others) :
    p row = false ∧ p next = true := by
  have hnext : next ∈ (before ++ row :: next :: after).filter p := by
    rw [h]
    exact List.mem_cons_self
  refine ⟨Bool.eq_false_iff.2 ?_, (List.mem_filter.1 hnext).2⟩
  intro hpast
  have hrow : row ∈ next :: others := by
    rw [← h, List.mem_filter]
    exact ⟨by simp, hpast⟩
  have hrowNext : Row.Before keys row next :=
    (List.pairwise_cons.1 (List.pairwise_append.1 hstrict).2.1).1 next List.mem_cons_self
  rcases List.mem_cons.1 hrow with rfl | hlater
  · exact absurd hrowNext Row.Before.irrefl
  · have hfiltered := hstrict.filter p
    rw [h] at hfiltered
    exact absurd (hrowNext.trans ((List.pairwise_cons.1 hfiltered).1 row hlater)) Row.Before.irrefl

end Neighbours

/-! ## Complete walks -/

namespace Listing

/-- The answers show the matching rows: every one once, in the order in force, on full pages, as
many as are needed, and each the same as the page of that number. -/
structure Complete (x : Executor) (t : Table) (execution : ExecutionRequest) (size : Nat)
    (answers : List Answer) : Prop where
  shown : ∀ a ∈ answers, Answer.Presents x a.rows a.body
  order : (answers.flatMap (·.rows)).Pairwise (Row.Before (sortKeys (x.sortOf execution)))
  all : (answers.flatMap (·.rows)).Perm (x.matching t execution)
  count : answers.length = max 1 (((x.matching t execution).length + size - 1) / size)
  full : ∀ a ∈ answers.dropLast, a.rows.length = size
  pages : ∀ (now : DateTime) (page : OffsetPage) (a : Answer), page.pageSize = size →
    answers[page.page - 1]? = some a → ((page.page - 1) * size : Nat) ≤ greatestInteger →
    ∃ e, (x.execute t.run (execution.paged (.offset page)) now).result = .ok e ∧
      a.body.get? "data" = some (.list (e.records.map .mapping))

variable {l : Listing} {t : Table} {req : ListingRequest} {format : Format}
  {execution : ExecutionRequest} {page : CursorPage}

/-- Where a page ends, its last row and the next one are neighbours among all rows. -/
theorem ordered_eq_parts {size : Nat} {before rest init after : List Row} {row next : Row}
    (hrest : l.executor.ordered t execution = before ++ rest)
    (htake : rest.take size = init ++ [row]) (hdrop : rest.drop size = next :: after) :
    l.executor.ordered t execution = (before ++ init) ++ row :: next :: after ∧ row ∈ t.rows := by
  have hparts : l.executor.ordered t execution = (before ++ init) ++ row :: next :: after := by
    rw [hrest, ← List.take_append_drop size rest, htake, hdrop]
    simp
  have hrow : row ∈ l.executor.ordered t execution := by
    rw [hparts]
    simp
  exact ⟨hparts, Executor.ordered_mem hrow⟩

/-- Answers on pages of the ordered rows are complete. -/
theorem Serves.complete {size : Nat} (ht : l.Serves execution size t) (hsize : 0 < size)
    (hreads : ∀ row ∈ l.executor.ordered t execution, t.reads row = true) {answers : List Answer}
    (hpaged : Paged size (l.executor.ordered t execution) (answers.map (·.rows)))
    (hshown : ∀ a ∈ answers, Answer.Presents l.executor a.rows a.body) :
    Complete l.executor t execution size answers := by
  have hperm := Executor.ordered_perm l.executor t execution
  have hflat : answers.flatMap (·.rows) = l.executor.ordered t execution := by
    rw [List.flatMap_def, hpaged.flatten_eq]
  refine ⟨hshown, hflat ▸ ht.strict, hflat ▸ hperm, ?_, ?_, ?_⟩
  · have hcount := hpaged.length_eq hsize
    rw [List.length_map, hperm.length_eq] at hcount
    exact hcount
  · intro a ha
    refine hpaged.length_of_mem_dropLast a.rows ?_
    rw [← List.map_dropLast]
    exact List.mem_map_of_mem ha
  · intro now number a hnumber ha hfirst
    obtain ⟨e, he, hrecords⟩ := Executor.execute_numbered ht.isOf.columns ht.isOf.sound
      ht.ready (.offset number) rfl (Int.natCast_nonneg _)
      (by rw [Pagination.firstRow, hnumber]; exact hfirst)
      (by rw [Pagination.limit, hnumber]; exact ht.size)
      (fun row hrow => hreads row (List.mem_of_mem_drop (List.mem_of_mem_take hrow))) now
    refine ⟨e, he, ?_⟩
    obtain ⟨records, hshows, hdata⟩ := hshown a (List.mem_of_getElem? ha)
    have hpage : (answers.map (·.rows))[number.page - 1]? = some a.rows := by
      rw [List.getElem?_map, ha]
      rfl
    have hrows := hpaged.getElem?_eq hpage
    rw [Pagination.firstRow, Pagination.limit, Int.toNat_natCast, hnumber, ← hrows, hshows]
      at hrecords
    cases hrecords
    exact hdata

namespace Outset

variable (h : Outset l req format execution page) (ht : l.Serves execution page.pageSize t)

include h ht

/-- Cursors that lead on make a walk through all the rows that are left. -/
theorem walk_of_leads (clock : Nat → DateTime × Int) {asked : ListingRequest}
    {before rest : List Row}
    (hgives : l.Gives t (l.executor.sortOf execution) page.pageSize asked rest)
    (hrest : l.executor.ordered t execution = before ++ rest)
    (hreads : ∀ row ∈ rest, t.reads row = true)
    (hleads : t.LeadsThrough (l.executor.sortOf execution) page.pageSize rest) (i : Nat) :
    ∃ answers, l.Walk (fun _ => t.run) req clock true i asked answers ∧
      Paged page.pageSize rest (answers.map (·.rows)) ∧
      ∀ a ∈ answers, Answer.Presents l.executor a.rows a.body := by
  have hsize : 0 < page.pageSize := page.size_pos
  induction hlength : rest.length using Nat.strong_induction_on
    generalizing asked before rest i with
  | _ n ih =>
  obtain ⟨hrows, body, hrun, hpresents, hnext, htoken⟩ :=
    hgives.shown (fun row hrow => hreads row (List.mem_of_mem_take hrow)) (clock i).1 (clock i).2
  by_cases hlt : page.pageSize < rest.length
  · obtain ⟨init, row, next, after, htake, hdrop, hrow, hnextRow⟩ := exists_boundary hsize hlt
    obtain ⟨hfirst, hlater⟩ := (Table.leadsThrough_iff hsize).1 hleads
    obtain ⟨cells, hplace, hrowPlace, hnextPlace⟩ := hfirst row next hrow hnextRow
    obtain ⟨hparts, hmem⟩ := ordered_eq_parts hrest htake hdrop
    have hgivesNext := h.gives_next ht hmem ht hplace
    have hrowPast : l.executor.past execution cells row = false :=
      Bool.eq_false_iff.2 fun hpast => hrowPlace (Executor.past_iff.1 hpast)
    rw [hparts, filter_of_neighbours (hparts ▸ ht.strict) (fun _ _ => Executor.past_of_before)
      hrowPast (Executor.past_iff.2 hnextPlace), ← hdrop] at hgivesNext
    have hlaterRest : l.executor.ordered t execution
        = (before ++ rest.take page.pageSize) ++ rest.drop page.pageSize := by
      rw [hrest, List.append_assoc, List.take_append_drop]
    obtain ⟨answers, hwalk, hpaged, hshown⟩ := ih (rest.drop page.pageSize).length
      (by rw [List.length_drop]; omega) hgivesNext hlaterRest
      (fun row hrow => hreads row (List.mem_of_mem_drop hrow)) hlater (i + 1) rfl
    rw [htake, List.getLast?_concat, Option.map_some] at htoken
    refine ⟨_, .more hrun (by rw [hnext, decide_eq_true hlt]) (htoken hlt) hwalk, ?_, ?_⟩
    · rw [List.map_cons, hrows]
      exact .more hlt hpaged
    · intro a ha
      rcases List.mem_cons.1 ha with rfl | ha
      · rw [hrows]
        exact hpresents
      · exact hshown a ha
  · have hall : rest.take page.pageSize = rest := List.take_of_length_le (by omega)
    refine ⟨_, .last hrun (by rw [hnext, decide_eq_false hlt]), ?_, ?_⟩
    · rw [List.map_singleton, hrows, hall]
      exact .last (by omega)
    · intro a ha
      rw [List.mem_singleton.1 ha, hrows]
      exact hpresents

/-- If a walk goes on after a row with the row next to it, the cursor at the row leads on, and its
request gives what is left. -/
theorem leadsOn_of_walk {clock : Nat → DateTime × Int} {ended : Bool} {i : Nat}
    {before after : List Row} {row next : Row} {answers : List Answer}
    (hparts : l.executor.ordered t execution = before ++ row :: next :: after)
    (hmem : row ∈ t.rows)
    (hwalk : l.Walk (fun _ => t.run) req clock ended i
      (req.continued (l.executor.cursor (l.executor.sortOf execution) row)) answers)
    (hflat : answers.flatMap (·.rows) = next :: after) :
    t.LeadsOn (l.executor.sortOf execution) row next ∧
      l.Gives t (l.executor.sortOf execution) page.pageSize
        (req.continued (l.executor.cursor (l.executor.sortOf execution) row)) (next :: after) := by
  have hstrict := hparts ▸ ht.strict
  have hne : answers ≠ [] := by
    rintro rfl
    cases hflat
  cases hplace : t.place? (l.executor.sortOf execution) row with
  | none =>
    obtain ⟨body, hbody⟩ := hwalk.answered hne
    exact absurd hbody (h.refused_next ht hmem ht hplace _ _ body)
  | some cells =>
    have hgives := h.gives_next ht hmem ht hplace
    -- The next row is the first one after the place of the cursor.
    have hhead := hwalk.head?_eq hne rfl page.size_pos hgives
    rw [hflat, List.head?_cons, hparts] at hhead
    obtain ⟨others, hothers⟩ := List.head?_eq_some_iff.1 hhead.symm
    obtain ⟨hrowPast, hnextPast⟩ := neighbours_of_filter hstrict hothers
    rw [hparts, filter_of_neighbours hstrict (fun _ _ => Executor.past_of_before) hrowPast
      hnextPast] at hgives
    refine ⟨⟨cells, hplace, ?_, Executor.past_iff.1 hnextPast⟩, hgives⟩
    intro hlevel
    exact Bool.eq_false_iff.1 hrowPast (Executor.past_iff.2 hlevel)

/-- A walk that shows all the rows that are left was made by cursors that lead on, and has read all
these rows. -/
theorem leads_of_walk {clock : Nat → DateTime × Int} {i : Nat} {asked : ListingRequest}
    {answers : List Answer} (hwalk : l.Walk (fun _ => t.run) req clock true i asked answers)
    {before rest : List Row}
    (hgives : l.Gives t (l.executor.sortOf execution) page.pageSize asked rest)
    (hrest : l.executor.ordered t execution = before ++ rest)
    (hflat : answers.flatMap (·.rows) = rest) :
    t.LeadsThrough (l.executor.sortOf execution) page.pageSize rest ∧
      ∀ row ∈ rest, t.reads row = true := by
  have hsize : 0 < page.pageSize := page.size_pos
  obtain ⟨ended, hended⟩ : ∃ ended, ended = true := ⟨_, rfl⟩
  rw [← hended] at hwalk
  induction hwalk generalizing before rest with
  | stop => cases hended
  | @last i asked body answered ends =>
    have hfits := hgives.ends answered ends
    have hread := hgives.read _ _ _ answered
    rw [List.take_of_length_le (by omega)] at hread
    exact ⟨Table.leadsThrough_of_length_le hfits, hread⟩
  | @more ended i asked body token answers answered goes next hwalk ih =>
    have hrows := (hgives.begins answered).1
    have hread := hgives.read _ _ _ answered
    obtain ⟨hlt, htoken⟩ := hgives.goes answered goes
    obtain ⟨init, row, nextRow, after, htake, hdrop, hrow, hnextRow⟩ := exists_boundary hsize hlt
    obtain ⟨hparts, hmem⟩ := ordered_eq_parts hrest htake hdrop
    -- The walk goes on with the cursor of the last row, and shows what this page leaves.
    obtain rfl : l.executor.cursor (l.executor.sortOf execution) row = token := by
      rw [htake, List.getLast?_concat, Option.map_some, next] at htoken
      exact (Option.some.inj htoken).symm
    have hflatRest : answers.flatMap (·.rows) = nextRow :: after := by
      rw [List.flatMap_cons, hrows] at hflat
      rw [← hdrop]
      exact List.append_cancel_left (hflat.trans (List.take_append_drop _ _).symm)
    obtain ⟨hleadsOn, hgivesNext⟩ := h.leadsOn_of_walk ht hparts hmem hwalk hflatRest
    have hlaterRest : l.executor.ordered t execution
        = (before ++ rest.take page.pageSize) ++ nextRow :: after := by
      rw [hrest, ← hdrop, List.append_assoc, List.take_append_drop]
    obtain ⟨hlater, hreadLater⟩ := ih hgivesNext hlaterRest hflatRest hended
    constructor
    · refine (Table.leadsThrough_iff hsize).2 ⟨?_, hdrop ▸ hlater⟩
      intro row' next' hrow' hnext'
      rw [hrow] at hrow'
      rw [hnextRow] at hnext'
      cases hrow'
      cases hnext'
      exact hleadsOn
    · intro row' hrow'
      rw [← List.take_append_drop page.pageSize rest, hdrop] at hrow'
      rcases List.mem_append.1 hrow' with hfirst | hfurther
      · exact hread row' ((List.take_sublist_take_left (by omega)).subset hfirst)
      · exact hreadLater row' hfurther

/-- Cursors that lead on make a complete walk through rows that can be read. -/
theorem complete_of_leads (clock : Nat → DateTime × Int)
    (hreads : ∀ row ∈ l.executor.ordered t execution, t.reads row = true)
    (hleads : t.LeadsThrough (l.executor.sortOf execution) page.pageSize
      (l.executor.ordered t execution)) :
    ∃ answers, l.Walk (fun _ => t.run) req clock true 0 req answers ∧
      Complete l.executor t execution page.pageSize answers := by
  obtain ⟨answers, hwalk, hpaged, hshown⟩ :=
    h.walk_of_leads ht clock (h.gives_first ht) (List.nil_append _).symm hreads hleads 0
  exact ⟨answers, hwalk, ht.complete page.size_pos hreads hpaged hshown⟩

end Outset

section Main

variable {md : Metadata} (hl : l.IsFor md) (hsigns : l.Signs) (ht : t.IsOf md)
  (hplan : l.plan req = .ok (format, execution)) (hnature : format.nature = .cursor)
  (hfresh : req.isFresh) {now : DateTime} {body : Entries}
  (hrun : l.run t.run req now = .ok body)
  (hfaithful : t.Faithful (md.effectiveSort execution.spec.sort))

include hl hsigns ht hplan hnature hfresh hrun hfaithful

theorem outset_of_run :
    ∃ page, Outset l req format execution page ∧ l.Serves execution page.pageSize t := by
  obtain ⟨page, h⟩ := outset_of_plan hl hsigns hplan hnature hfresh
  have hasked : (l.at l.validator.now).run t.run req now = .ok body := hrun
  rw [hl.sort_eq] at hfaithful
  exact ⟨page, h, h.serves_first (hl.executor ▸ ht) hfaithful hasked⟩

/-- Orders without booleans and collections are walked through completely, as far as the rows can be
read. -/
theorem walk_complete (hsteady : t.Steady (md.effectiveSort execution.spec.sort))
    (hreads : ∀ row ∈ l.executor.matching t execution, t.reads row = true)
    (clock : Nat → DateTime × Int) :
    ∃ answers, l.Walk (fun _ => t.run) req clock true 0 req answers ∧
      Complete l.executor t execution execution.spec.pagination.limit.toNat answers := by
  obtain ⟨page, h, hserves⟩ := outset_of_run hl hsigns ht hplan hnature hfresh hrun hfaithful
  rw [hl.sort_eq] at hsteady
  rw [h.limit_eq]
  refine h.complete_of_leads hserves clock
    (fun row hrow => hreads row ((Executor.ordered_perm l.executor t execution).mem_iff.1 hrow))
    (Table.leadsThrough_of_steady hserves.faithful hsteady ?_ hserves.strict page.size_pos)
  intro row hrow
  have hmem := Executor.ordered_mem hrow
  exact ⟨hmem, hserves.ordered_of_mem hmem⟩

/-- A client that starts without a cursor, and goes on with the cursor of each answer while there is
a next page, sees every matching row once, in the order in force, on as many full pages as are
needed: exactly if wherever a page ends the cursor of its last row leads on to the next page, and
all these rows can be read. -/
theorem walk_complete_iff (clock : Nat → DateTime × Int) :
    (∃ answers, l.Walk (fun _ => t.run) req clock true 0 req answers ∧
      Complete l.executor t execution execution.spec.pagination.limit.toNat answers) ↔
    t.LeadsThrough (md.effectiveSort execution.spec.sort) execution.spec.pagination.limit.toNat
      (l.executor.ordered t execution) ∧
      ∀ row ∈ l.executor.matching t execution, t.reads row = true := by
  obtain ⟨page, h, hserves⟩ := outset_of_run hl hsigns ht hplan hnature hfresh hrun hfaithful
  have hperm := Executor.ordered_perm l.executor t execution
  rw [h.limit_eq, hl.sort_eq]
  constructor
  · rintro ⟨answers, hwalk, hcomplete⟩
    have hflat := Table.eq_of_strict hcomplete.order hserves.strict (hcomplete.all.trans hperm.symm)
    obtain ⟨hleads, hreads⟩ :=
      h.leads_of_walk hserves hwalk (h.gives_first hserves) (List.nil_append _).symm hflat
    exact ⟨hleads, fun row hrow => hreads row (hperm.mem_iff.2 hrow)⟩
  · rintro ⟨hleads, hreads⟩
    exact h.complete_of_leads hserves clock
      (fun row hrow => hreads row (hperm.mem_iff.1 hrow)) hleads

end Main

/-- A row for a quote of a character. -/
def spokenRow (id : Nat) (character : Cell) : Row :=
  [("id", numbered id), ("character", character), ("deleted_at", .null)]

/-- Four quotes: two of one character, and one of nobody. -/
def spoken : Table where
  columns := Catalog.movieQuotes.columns
  rows := [spokenRow 1 (.text "Rick"), spokenRow 2 .null, spokenRow 3 (.text "Ilsa"),
    spokenRow 4 (.text "Rick")]

/-- A request for pages of two quotes by character. -/
def byCharacter : ListingRequest where
  params := [("format", .text "cursor"), ("pageSize", .text "2"),
    ("sort", .text "character:desc")]

def executionByCharacter : ExecutionRequest where
  spec := { sort := [⟨"character", .desc⟩], pagination := .cursor { pageSize := 2 } }

/-- A table of such quotes answers the request, if that much can be checked of it. -/
theorem serves_byCharacter {t : Table} (ht : t.IsOf ⟨Catalog.movieQuotes, 20, 100⟩)
    (hselects : ∃ ps, quoteListing.executor.predicates executionByCharacter = .ok ps ∧
      t.select ps = .ok (quoteListing.executor.matching t executionByCharacter))
    (hvalues : ∀ row ∈ t.rows, ∀ s ∈ quoteListing.executor.sortOf executionByCharacter,
      t.readsBack s.field row = true ∧ Cursor.isSteady (t.value s.field row) = true ∧
        (t.value s.field row).number? = none) :
    quoteListing.Serves executionByCharacter 2 t ∧
      t.Steady (quoteListing.executor.sortOf executionByCharacter) := by
  have hfaithful : t.Faithful (quoteListing.executor.sortOf executionByCharacter) := by
    refine ⟨fun row hrow s hs => (hvalues row hrow s hs).1, ?_⟩
    intro row hrow s hs x hx
    have hnumber := (hvalues row hrow s hs).2.2
    rw [hx] at hnumber
    cases hnumber
  exact ⟨⟨ht, hfaithful, ⟨hselects, by decide +kernel⟩, by decide⟩,
    fun row hrow s hs => (hvalues row hrow s hs).2.1⟩

theorem reads_spoken : ∀ row ∈ spoken.rows, spoken.reads row = true := by decide +kernel

theorem isOf_spoken : spoken.IsOf ⟨Catalog.movieQuotes, 20, 100⟩ :=
  ⟨rfl, by decide +kernel, by decide +kernel⟩

theorem serves_spoken : quoteListing.Serves executionByCharacter 2 spoken ∧
    spoken.Steady (quoteListing.executor.sortOf executionByCharacter) :=
  serves_byCharacter isOf_spoken ⟨_, rfl, rfl⟩ (by decide +kernel)

theorem plan_byCharacter : quoteListing.plan byCharacter = .ok (.cursor, executionByCharacter) :=
  rfl

theorem byCharacter_complete :
    ∃ answers, quoteListing.Walk (fun _ => spoken.run) byCharacter
        (fun i => ({ date := default }, i)) true 0 byCharacter answers ∧
      Complete quoteListing.executor spoken executionByCharacter 2 answers := by
  obtain ⟨hserves, hsteady⟩ := serves_spoken
  obtain ⟨body, hrun⟩ := run_of_ready isOf_spoken hserves.ready reads_spoken plan_byCharacter rfl
    rfl rfl hserves.size { date := default }
  refine (walk_complete_iff ⟨rfl, rfl⟩ ⟨rfl, by decide +kernel⟩ isOf_spoken plan_byCharacter rfl
    rfl hrun hserves.faithful _).2
      ⟨?_, fun row hrow => reads_spoken row (Executor.mem_of_mem_matching hrow)⟩
  refine Table.leadsThrough_of_steady hserves.faithful hsteady ?_ hserves.strict
    (by decide)
  intro row hrow
  have hmem := Executor.ordered_mem hrow
  exact ⟨hmem, hserves.ordered_of_mem hmem⟩

end Listing
end RecordQuery
