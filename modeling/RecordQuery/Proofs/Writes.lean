import RecordQuery.Proofs.Walk

/-!
# Walks while rows are written

Before each request of a walk the table may be written to: rows come, go and change.

* `Listing.Exact`: the rows of all answers are in strict order, and at the end of the walk the rows
  that stayed have been shown once.
* `Listing.Parts`: the cursor at the last row of a page parts the rows like the row itself.
* `Listing.walk_exact_iff`: a walk is exact exactly if all its cursors part the rows.
* `Listing.walk_exact`: so they do, where no booleans and no collections are sorted by.
-/

namespace RecordQuery

open RecordQuery.Store RecordQuery.Calendar

/-! ## Turning a page -/

/-- A page of the `admitted` rows ends with a row, and `rows` are those of all further pages. They
begin with the first of the `next` rows that are `past` the cursor of the row. -/
structure Turn (keys : List SortKey) (admitted next past kept : Row → Prop)
    (init later rows : List Row) (last : Row) : Prop where
  strict : (init ++ last :: later).Pairwise (Row.Before keys)
  admits : admitted last
  upward : ∀ a b, admitted a → Row.Before keys a b → admitted b
  onward : ∀ a b, past a → Row.Before keys a b → past b
  left : ∀ row, kept row → admitted row → row ∈ init ++ last :: later
  stays : ∀ row, kept row → next row
  head : ∀ first ∈ rows.head?, next first ∧ past first
  least : ∀ row, next row → past row → ∃ first ∈ rows.head?, first = row ∨ Row.Before keys first row

/-- The first row of an order comes before all the others. -/
theorem exists_first {keys : List SortKey} {rows : List Row} (h : rows.Pairwise (Row.Before keys))
    {row : Row} (hrow : row ∈ rows) :
    ∃ first ∈ rows.head?, first = row ∨ Row.Before keys first row := by
  obtain ⟨first, others, rfl⟩ := List.exists_cons_of_ne_nil (List.ne_nil_of_mem hrow)
  refine ⟨first, rfl, ?_⟩
  rcases List.mem_cons.1 hrow with rfl | hmem
  · exact .inl rfl
  · exact .inr ((List.pairwise_cons.1 h).1 row hmem)

namespace Turn

variable {keys : List SortKey} {admitted next past kept : Row → Prop} {init later rows : List Row}
  {last : Row} (h : Turn keys admitted next past kept init later rows last)

include h

theorem upto : ∀ row ∈ init ++ [last], row = last ∨ Row.Before keys row last := by
  intro row hrow
  obtain ⟨-, -, hinit⟩ := List.pairwise_append.1 h.strict
  rcases List.mem_append.1 hrow with hrow | hrow
  · exact .inr (hinit row hrow last List.mem_cons_self)
  · exact .inl (List.mem_singleton.1 hrow)

/-- If all rows are in order and no kept one is left out, the cursor parts the rows like its row. -/
theorem parts_of_exact (hall : (init ++ [last] ++ rows).Pairwise (Row.Before keys))
    (hcover : ∀ row, kept row → admitted row → row ∈ init ++ [last] ++ rows) :
    ((∀ row, next row → past row → Row.Before keys last row) ∧
      ∀ row, kept row → Row.Before keys last row → past row) ∧
      rows.Pairwise (Row.Before keys) ∧ ∀ row, kept row → past row → row ∈ rows := by
  obtain ⟨-, hrows, hcross⟩ := List.pairwise_append.1 hall
  have hafter : ∀ row, next row → past row → Row.Before keys last row := by
    intro row hnext hrow
    obtain ⟨first, hmem, hle⟩ := h.least row hnext hrow
    have hbefore : Row.Before keys last first :=
      hcross last (by simp) first (List.mem_of_mem_head? hmem)
    rcases hle with rfl | hlt
    · exact hbefore
    · exact hbefore.trans hlt
  -- What comes after the last row is on the further pages.
  have hfurther : ∀ row, kept row → Row.Before keys last row → row ∈ rows := by
    intro row hrow hlt
    rcases List.mem_append.1 (hcover row hrow (h.upward last row h.admits hlt)) with hmem | hmem
    · rcases h.upto row hmem with rfl | hgt
      · exact absurd hlt Row.Before.irrefl
      · exact absurd (hlt.trans hgt) Row.Before.irrefl
    · exact hmem
  refine ⟨⟨hafter, ?_⟩, hrows, ?_⟩
  · intro row hrow hlt
    have hmem := hfurther row hrow hlt
    obtain ⟨first, others, rfl⟩ := List.exists_cons_of_ne_nil (List.ne_nil_of_mem hmem)
    have hfirst := (h.head first rfl).2
    rcases List.mem_cons.1 hmem with rfl | hmem
    · exact hfirst
    · exact h.onward first row hfirst ((List.pairwise_cons.1 hrows).1 row hmem)
  · intro row hrow hpast
    exact hfurther row hrow (hafter row (h.stays row hrow) hpast)

/-- If the cursor parts the rows like its row, what holds of the further pages holds of all. -/
theorem exact_of_parts (hafter : ∀ row, next row → past row → Row.Before keys last row)
    (hbeyond : ∀ row, kept row → Row.Before keys last row → past row)
    (hrows : rows.Pairwise (Row.Before keys)) (hcover : ∀ row, kept row → past row → row ∈ rows) :
    (init ++ [last] ++ rows).Pairwise (Row.Before keys) ∧
      ∀ row, kept row → admitted row → row ∈ init ++ [last] ++ rows := by
  have hpage : (init ++ [last]).Pairwise (Row.Before keys) :=
    h.strict.sublist ((List.Sublist.refl init).append (by simp))
  have htail : ∀ row ∈ later, Row.Before keys last row :=
    (List.pairwise_cons.1 (List.pairwise_append.1 h.strict).2.1).1
  constructor
  · refine List.pairwise_append.2 ⟨hpage, hrows, ?_⟩
    intro a ha b hb
    obtain ⟨first, others, rfl⟩ := List.exists_cons_of_ne_nil (List.ne_nil_of_mem hb)
    obtain ⟨hnext, hpast⟩ := h.head first rfl
    have hfirst : Row.Before keys a first := by
      rcases h.upto a ha with rfl | hlt
      · exact hafter first hnext hpast
      · exact hlt.trans (hafter first hnext hpast)
    rcases List.mem_cons.1 hb with rfl | hb
    · exact hfirst
    · exact hfirst.trans ((List.pairwise_cons.1 hrows).1 b hb)
  · intro row hrow hadmitted
    rcases List.mem_append.1 (h.left row hrow hadmitted) with hmem | hmem
    · exact List.mem_append_left _ (List.mem_append_left _ hmem)
    · rcases List.mem_cons.1 hmem with rfl | hmem
      · simp
      · exact List.mem_append_right _ (hcover row hrow (hbeyond row hrow (htail row hmem)))

theorem exact_iff :
    ((init ++ [last] ++ rows).Pairwise (Row.Before keys) ∧
      ∀ row, kept row → admitted row → row ∈ init ++ [last] ++ rows) ↔
    ((∀ row, next row → past row → Row.Before keys last row) ∧
      ∀ row, kept row → Row.Before keys last row → past row) ∧
      rows.Pairwise (Row.Before keys) ∧ ∀ row, kept row → past row → row ∈ rows :=
  ⟨fun ⟨hall, hcover⟩ => h.parts_of_exact hall hcover,
    fun ⟨⟨hafter, hbeyond⟩, hrows, hcover⟩ => h.exact_of_parts hafter hbeyond hrows hcover⟩

end Turn

namespace Listing

/-! ## Exact walks -/

/-- The row is in every table of a walk as it is, and matches. -/
def Stays (x : Executor) (tables : Nat → Table) (execution : ExecutionRequest)
    (answers : List Answer) (row : Row) : Prop :=
  ∀ i < answers.length, row ∈ x.matching (tables i) execution

/-- The rows that are shown come in strict order; if the walk has come to its end, every row that
stayed is shown once. -/
structure Exact (x : Executor) (tables : Nat → Table) (execution : ExecutionRequest)
    (ended : Bool) (answers : List Answer) : Prop where
  order : (answers.flatMap (·.rows)).Pairwise (Row.Before (sortKeys (x.sortOf execution)))
  once : ended = true → ∀ row, Stays x tables execution answers row →
    (answers.flatMap (·.rows)).count row = 1

/-- The cursor at a row of a table has a place that parts the rows like the row itself: the matching
rows of the next table past the place come after the row, and the kept rows after the row are past
the place. -/
def Parts (x : Executor) (execution : ExecutionRequest) (kept : Row → Prop) (t t' : Table)
    (last : Row) : Prop :=
  ∃ cells, t.place? (x.sortOf execution) last = some cells ∧
    (∀ row, row ∈ x.matching t' execution → x.past execution cells row = true →
      Row.Before (sortKeys (x.sortOf execution)) last row) ∧
    ∀ row, kept row → Row.Before (sortKeys (x.sortOf execution)) last row →
      x.past execution cells row = true

theorem parts_iff {x : Executor} {execution : ExecutionRequest} {kept : Row → Prop} {t t' : Table}
    {last : Row} {cells : List Cell} (hplace : t.place? (x.sortOf execution) last = some cells) :
    Parts x execution kept t t' last ↔
      (∀ row, row ∈ x.matching t' execution → x.past execution cells row = true →
        Row.Before (sortKeys (x.sortOf execution)) last row) ∧
      ∀ row, kept row → Row.Before (sortKeys (x.sortOf execution)) last row →
        x.past execution cells row = true := by
  constructor
  · rintro ⟨_, hsome, hparts⟩
    rw [hplace] at hsome
    cases hsome
    exact hparts
  · intro hparts
    exact ⟨cells, hplace, hparts⟩

/-- From the `i`-th answer on, the cursors at the ends of all pages but the last part the rows. -/
def PartsThrough (x : Executor) (execution : ExecutionRequest) (kept : Row → Prop)
    (tables : Nat → Table) : Nat → List Answer → Prop
  | i, a :: a' :: answers =>
    (∀ last, a.rows.getLast? = some last →
      Parts x execution kept (tables i) (tables (i + 1)) last) ∧
    PartsThrough x execution kept tables (i + 1) (a' :: answers)
  | _, _ => True

variable {l : Listing} {t t' : Table} {req asked : ListingRequest} {format : Format}
  {execution : ExecutionRequest} {page : CursorPage}

/-- Where the request is answered, it gives the first of the matching rows that are admitted. -/
def Admits (l : Listing) (execution : ExecutionRequest) (size : Nat) (asked : ListingRequest)
    (admitted : Row → Bool) : Prop :=
  ∀ t : Table, t.IsOf l.executor.metadata → t.Faithful (l.executor.sortOf execution) →
    ∀ seconds now body, (l.at seconds).run t.run asked now = .ok body →
      l.Serves execution size t ∧ l.Gives t (l.executor.sortOf execution) size asked
        ((l.executor.ordered t execution).filter admitted)

namespace Outset

variable (h : Outset l req format execution page)

include h

theorem admits_first : l.Admits execution page.pageSize req fun _ => true := by
  intro t ht hfaithful seconds now body hrun
  have hserves := h.serves_first ht hfaithful hrun
  refine ⟨hserves, ?_⟩
  rw [List.filter_true]
  exact h.gives_first hserves

/-- The cursor of a row admits what is past its place. -/
theorem admits_next (ht : l.Serves execution page.pageSize t) {row : Row} (hrow : row ∈ t.rows)
    {cells : List Cell} (hplace : t.place? (l.executor.sortOf execution) row = some cells) :
    l.Admits execution page.pageSize
      (req.continued (l.executor.cursor (l.executor.sortOf execution) row))
      (l.executor.past execution cells) := by
  intro t' ht' hfaithful seconds now body hrun
  have hserves := h.serves_next ht hrow ht' hfaithful hrun
  exact ⟨hserves, h.gives_next ht hrow hserves hplace⟩

end Outset

/-- A page of the admitted rows with a next page ends with a row, whose cursor is given. -/
theorem Admits.exists_page {size : Nat} {admitted : Row → Bool} (hsize : 0 < size)
    (hadmits : l.Admits execution size asked admitted) (ht : t.IsOf l.executor.metadata)
    (hfaithful : t.Faithful (l.executor.sortOf execution)) {seconds : Int} {now : DateTime}
    {body : Entries} (answered : (l.at seconds).run t.run asked now = .ok body)
    (goes : Answer.hasNext body = .bool true) {token : String}
    (next : Answer.token? body = some token) :
    ∃ init last later, l.Serves execution size t ∧
      (l.executor.ordered t execution).filter admitted = init ++ last :: later ∧
      (l.at seconds).rowsOf t.run asked = init ++ [last] ∧
      token = l.executor.cursor (l.executor.sortOf execution) last := by
  obtain ⟨hserves, hgives⟩ := hadmits t ht hfaithful seconds now body answered
  obtain ⟨hlt, htoken⟩ := hgives.goes answered goes
  obtain ⟨init, last, first, later, htake, hdrop, -, -⟩ := exists_boundary hsize hlt
  have hparts : (l.executor.ordered t execution).filter admitted
      = init ++ last :: first :: later := by
    rw [← List.take_append_drop size (List.filter _ _), htake, hdrop]
    simp
  rw [htake, List.getLast?_concat, Option.map_some, next] at htoken
  exact ⟨init, last, first :: later, hserves, hparts, (hgives.begins answered).1.trans htake,
    Option.some.inj htoken⟩

section Walks

variable {tables : Nat → Table} {clock : Nat → DateTime × Int} {ended : Bool} {i : Nat}
  {answers : List Answer} (h : Outset l req format execution page)
  (htables : ∀ i, (tables i).IsOf l.executor.metadata)
  (hfaithful : ∀ i, (tables i).Faithful (l.executor.sortOf execution))

include h htables hfaithful

/-- A walk that goes on after a row goes on with the matching rows past the place of its cursor. -/
theorem Outset.next_head? (ht : l.Serves execution page.pageSize (tables i)) {last : Row}
    (hlast : last ∈ (tables i).rows)
    (hwalk : l.Walk (fun i => (tables i).run) req clock ended (i + 1)
      (req.continued (l.executor.cursor (l.executor.sortOf execution) last)) answers)
    (hne : answers ≠ []) :
    ∃ cells, (tables i).place? (l.executor.sortOf execution) last = some cells ∧
      l.Serves execution page.pageSize (tables (i + 1)) ∧
      (answers.flatMap (·.rows)).head? = ((l.executor.ordered (tables (i + 1)) execution).filter
        (l.executor.past execution cells)).head? := by
  obtain ⟨body, hrun⟩ := hwalk.answered hne
  have ht' := h.serves_next ht hlast (htables (i + 1)) (hfaithful (i + 1)) hrun
  cases hplace : (tables i).place? (l.executor.sortOf execution) last with
  | none => exact absurd hrun (h.refused_next ht hlast ht' hplace _ _ body)
  | some cells =>
    exact ⟨cells, rfl, ht', hwalk.head?_eq hne rfl page.size_pos (h.gives_next ht hlast ht' hplace)⟩

/-- The turn from a page of the admitted rows to the further pages of a walk. -/
theorem Outset.turn (ht : l.Serves execution page.pageSize (tables i)) {admitted : Row → Bool}
    (hupward : ∀ a b, admitted a = true → Row.Before (sortKeys (l.executor.sortOf execution)) a b →
      admitted b = true) {init later : List Row} {last : Row}
    (hparts : (l.executor.ordered (tables i) execution).filter admitted = init ++ last :: later)
    (hwalk : l.Walk (fun i => (tables i).run) req clock ended (i + 1)
      (req.continued (l.executor.cursor (l.executor.sortOf execution) last)) answers)
    (hne : answers ≠ []) {kept : Row → Prop}
    (hkept : ∀ row, kept row → row ∈ l.executor.matching (tables i) execution ∧
      row ∈ l.executor.matching (tables (i + 1)) execution) :
    last ∈ (tables i).rows ∧
      ∃ cells, (tables i).place? (l.executor.sortOf execution) last = some cells ∧
        Turn (sortKeys (l.executor.sortOf execution)) (fun row => admitted row = true)
          (fun row => row ∈ l.executor.matching (tables (i + 1)) execution)
          (fun row => l.executor.past execution cells row = true) kept init later
          (answers.flatMap (·.rows)) last := by
  have hmatching (j : Nat) (row : Row) : row ∈ l.executor.ordered (tables j) execution ↔
      row ∈ l.executor.matching (tables j) execution :=
    (Executor.ordered_perm l.executor (tables j) execution).mem_iff
  have hstrict := ht.strict.filter admitted
  have hlast : last ∈ (l.executor.ordered (tables i) execution).filter admitted := by
    rw [hparts]
    simp
  obtain ⟨hlastMem, hlastAdmitted⟩ := List.mem_filter.1 hlast
  have hlastRow := Executor.ordered_mem hlastMem
  obtain ⟨cells, hplace, ht', hhead⟩ := h.next_head? htables hfaithful ht hlastRow hwalk hne
  refine ⟨hlastRow, cells, hplace, hparts ▸ hstrict, hlastAdmitted, hupward,
    fun _ _ => Executor.past_of_before, ?_, fun row hrow => (hkept row hrow).2, ?_, ?_⟩
  · intro row hrow hadmitted
    rw [← hparts, List.mem_filter, hmatching]
    exact ⟨(hkept row hrow).1, hadmitted⟩
  · intro first hfirst
    rw [hhead] at hfirst
    obtain ⟨hfirstMem, hfirstPast⟩ := List.mem_filter.1 (List.mem_of_mem_head? hfirst)
    exact ⟨(hmatching (i + 1) first).1 hfirstMem, hfirstPast⟩
  · intro row hrow hpast
    rw [hhead]
    refine exists_first (ht'.strict.filter _) (List.mem_filter.2 ⟨?_, hpast⟩)
    exact (hmatching (i + 1) row).2 hrow

/-- What a walk shows of the admitted rows is in order and leaves out none of the kept ones, exactly
if the cursors part the rows. -/
theorem Outset.exact_iff
    (hwalk : l.Walk (fun i => (tables i).run) req clock ended i asked answers)
    {admitted : Row → Bool} (hadmits : l.Admits execution page.pageSize asked admitted)
    (hupward : ∀ a b, admitted a = true → Row.Before (sortKeys (l.executor.sortOf execution)) a b →
      admitted b = true)
    (kept : Row → Prop) (hkept : ∀ row, kept row → ended = true ∧
      ∀ j < answers.length, row ∈ l.executor.matching (tables (i + j)) execution) :
    ((answers.flatMap (·.rows)).Pairwise (Row.Before (sortKeys (l.executor.sortOf execution))) ∧
      ∀ row, kept row → admitted row = true → row ∈ answers.flatMap (·.rows)) ↔
    PartsThrough l.executor execution kept tables i answers := by
  induction hwalk generalizing admitted with
  | stop =>
    have hnone : ∀ row, ¬ kept row := fun row hrow => Bool.false_ne_true (hkept row hrow).1
    exact ⟨fun _ => trivial, fun _ => ⟨.nil, fun row hrow => absurd hrow (hnone row)⟩⟩
  | @last i asked body answered ends =>
    obtain ⟨ht, hgives⟩ := hadmits (tables i) (htables i) (hfaithful i) _ _ _ answered
    have hrows := (hgives.begins answered).1
    rw [List.take_of_length_le (hgives.ends answered ends)] at hrows
    simp only [List.flatMap_cons, List.flatMap_nil, List.append_nil, hrows]
    refine ⟨fun _ => trivial, fun _ => ⟨ht.strict.filter _, ?_⟩⟩
    intro row hrow hadmitted
    have hmatching := (hkept row hrow).2 0 (by simp)
    exact List.mem_filter.2
      ⟨(Executor.ordered_perm l.executor (tables i) execution).mem_iff.2 hmatching, hadmitted⟩
  | @more ended i asked body token answers answered goes next hwalk ih =>
    obtain ⟨init, last, later, ht, hparts, hrows, rfl⟩ :=
      hadmits.exists_page page.size_pos (htables i) (hfaithful i) answered goes next
    simp only [List.flatMap_cons, hrows]
    cases answers with
    | nil =>
      cases hwalk
      have hnone : ∀ row, ¬ kept row := fun row hrow => Bool.false_ne_true (hkept row hrow).1
      have hpage :
          (init ++ [last]).Pairwise (Row.Before (sortKeys (l.executor.sortOf execution))) :=
        (hparts ▸ ht.strict.filter admitted).sublist ((List.Sublist.refl init).append (by simp))
      rw [List.flatMap_nil, List.append_nil]
      exact ⟨fun _ => trivial, fun _ => ⟨hpage, fun row hrow => absurd hrow (hnone row)⟩⟩
    | cons a answers =>
      obtain ⟨hlast, cells, hplace, hturn⟩ := h.turn htables hfaithful ht hupward hparts hwalk
        (by simp) fun row hrow => ⟨(hkept row hrow).2 0 (by simp), (hkept row hrow).2 1 (by simp)⟩
      have hlater := ih (h.admits_next ht hlast hplace) (fun _ _ => Executor.past_of_before)
        fun row hrow => ⟨(hkept row hrow).1, fun j hj => by
          have hshift := (hkept row hrow).2 (j + 1) (by simpa using hj)
          rwa [show i + (j + 1) = i + 1 + j by omega] at hshift⟩
      simp only [PartsThrough, List.getLast?_concat, Option.some.injEq, forall_eq']
      rw [parts_iff hplace, ← hlater]
      exact hturn.exact_iff

theorem Outset.exact_walk_iff
    (hwalk : l.Walk (fun i => (tables i).run) req clock ended 0 req answers) :
    Exact l.executor tables execution ended answers ↔
      PartsThrough l.executor execution
        (fun row => ended = true ∧ Stays l.executor tables execution answers row) tables 0
        answers := by
  rw [← h.exact_iff htables hfaithful hwalk h.admits_first (fun _ _ _ _ => rfl)
    (fun row => ended = true ∧ Stays l.executor tables execution answers row)
    (fun row hrow => ⟨hrow.1, fun j hj => by simpa using hrow.2 j hj⟩)]
  constructor
  · rintro ⟨horder, honce⟩
    refine ⟨horder, ?_⟩
    intro row hrow _
    exact List.count_pos_iff.1 (by rw [honce hrow.1 row hrow.2]; exact Nat.one_pos)
  · rintro ⟨horder, hcover⟩
    have hnodup : (answers.flatMap (·.rows)).Nodup := by
      refine horder.imp ?_
      rintro a b hab rfl
      exact Row.Before.irrefl hab
    exact ⟨horder, fun hended row hrow =>
      List.count_eq_one_of_mem hnodup (hcover row ⟨hended, hrow⟩ rfl)⟩

end Walks

/-! ## Orders without booleans and collections -/

theorem parts_of_steady {x : Executor} (ht : t.IsOf x.metadata)
    (hfaithful : t.Faithful (x.sortOf execution)) (hsteady : t.Steady (x.sortOf execution))
    (hsorts : ∀ s ∈ x.sortOf execution, x.metadata.model.hasColumn s.field = true)
    (kept : Row → Prop) (t' : Table) {last : Row} (hlast : last ∈ t.rows) :
    Parts x execution kept t t' last := by
  have hnan := Executor.ordered_of_sound ht.columns ht.sound hsorts hlast
  obtain ⟨cells, hplace, hlevel⟩ :=
    Table.exists_place_of_steady hnan (hfaithful.back last hlast) (hsteady last hlast)
  refine ⟨cells, hplace, ?_, ?_⟩
  · intro row _ hrow
    exact (hlevel row).symm.trans (Executor.past_iff.1 hrow)
  · intro row _ hrow
    exact Executor.past_iff.2 ((hlevel row).trans hrow)

/-- A walk can always go on until it has come to its end, if the rows can be read. -/
theorem Outset.exists_walk {tables : Nat → Table} (h : Outset l req format execution page)
    (htables : ∀ i, l.Serves execution page.pageSize (tables i))
    (hreads : ∀ i, ∀ row ∈ (tables i).rows, (tables i).reads row = true)
    (hsteady : ∀ i, (tables i).Steady (l.executor.sortOf execution))
    (clock : Nat → DateTime × Int) (n : Nat) :
    ∃ ended answers, l.Walk (fun i => (tables i).run) req clock ended 0 req answers ∧
      (ended = true ∨ answers.length = n) := by
  have hfrom : ∀ i asked rest,
      l.Gives (tables i) (l.executor.sortOf execution) page.pageSize asked rest →
      (∀ row ∈ rest, row ∈ (tables i).rows) →
      ∃ ended answers, l.Walk (fun i => (tables i).run) req clock ended i asked answers ∧
        (ended = true ∨ answers.length = n) := by
    induction n with
    | zero => exact fun i asked rest _ _ => ⟨false, [], .stop, .inr rfl⟩
    | succ n ih =>
      intro i asked rest hgives hrest
      obtain ⟨-, body, hrun, -, hnext, htoken⟩ :=
        hgives.shown (fun row hrow => hreads i row (hrest row (List.mem_of_mem_take hrow)))
          (clock i).1 (clock i).2
      by_cases hlt : page.pageSize < rest.length
      · obtain ⟨init, last, -, -, htake, -, hlast, -⟩ := exists_boundary page.size_pos hlt
        have hmem := hrest last (List.mem_of_getElem? hlast)
        obtain ⟨cells, hplace, -⟩ := Table.exists_place_of_steady ((htables i).ordered_of_mem hmem)
          ((htables i).faithful.back last hmem) (hsteady i last hmem)
        obtain ⟨ended, answers, hwalk, hend⟩ := ih (i + 1) _ _
          (h.gives_next (htables i) hmem (htables (i + 1)) hplace)
          fun row hrow => Executor.ordered_mem (List.mem_of_mem_filter hrow)
        rw [htake, List.getLast?_concat, Option.map_some] at htoken
        rw [decide_eq_true hlt] at hnext
        refine ⟨ended, _, .more hrun hnext (htoken hlt) hwalk, hend.imp id ?_⟩
        intro hlength
        rw [List.length_cons, hlength]
      · rw [decide_eq_false hlt] at hnext
        exact ⟨true, _, .last hrun hnext, .inl rfl⟩
  exact hfrom 0 req _ (h.gives_first (htables 0)) fun row hrow => Executor.ordered_mem hrow

theorem partsThrough_of_forall {x : Executor} {kept : Row → Prop} {tables : Nat → Table} {i : Nat}
    {answers : List Answer}
    (h : ∀ j a, answers[j]? = some a → ∀ row ∈ a.rows,
      Parts x execution kept (tables (i + j)) (tables (i + j + 1)) row) :
    PartsThrough x execution kept tables i answers := by
  induction answers generalizing i with
  | nil => trivial
  | cons a answers ih =>
    cases answers with
    | nil => trivial
    | cons a' answers =>
      refine ⟨fun last hlast => h 0 a rfl last (List.mem_of_getLast? hlast), ih ?_⟩
      intro j b hb
      have hshift := h (j + 1) b (by simpa using hb)
      rwa [show i + (j + 1) = i + 1 + j by omega] at hshift

theorem Outset.partsThrough_of_steady {tables : Nat → Table} {clock : Nat → DateTime × Int}
    {ended : Bool} {answers : List Answer} (h : Outset l req format execution page)
    (htables : ∀ i, (tables i).IsOf l.executor.metadata)
    (hfaithful : ∀ i, (tables i).Faithful (l.executor.sortOf execution))
    (hsteady : ∀ i, (tables i).Steady (l.executor.sortOf execution))
    (hwalk : l.Walk (fun i => (tables i).run) req clock ended 0 req answers) (kept : Row → Prop) :
    PartsThrough l.executor execution kept tables 0 answers := by
  cases hanswers : answers with
  | nil => trivial
  | cons a others =>
    obtain ⟨body, hrun⟩ := hwalk.answered (by simp [hanswers])
    have hsorts := (h.serves_first (htables 0) (hfaithful 0) hrun).ready.sorts
    rw [← hanswers]
    apply partsThrough_of_forall
    intro j b hb row hrow
    exact parts_of_steady (htables _) (hfaithful _) (hsteady _) hsorts _ _
      (hwalk.mem_of_mem_rows j b hb row hrow)

section Main

variable {md : Metadata} {tables : Nat → Table} {clock : Nat → DateTime × Int} {ended : Bool}
  {answers : List Answer} (hl : l.IsFor md) (hsigns : l.Signs)
  (hplan : l.plan req = .ok (format, execution)) (hnature : format.nature = .cursor)
  (hfresh : req.isFresh) (htables : ∀ i, (tables i).IsOf md)
  (hfaithful : ∀ i, (tables i).Faithful (md.effectiveSort execution.spec.sort))
  (hwalk : l.Walk (fun i => (tables i).run) req clock ended 0 req answers)

include hl hsigns hplan hnature hfresh htables hfaithful hwalk

/-- Orders without booleans and collections are walked through exactly. -/
theorem walk_exact (hsteady : ∀ i, (tables i).Steady (md.effectiveSort execution.spec.sort)) :
    Exact l.executor tables execution ended answers := by
  obtain ⟨page, h⟩ := outset_of_plan hl hsigns hplan hnature hfresh
  rw [← hl.executor] at htables
  rw [hl.sort_eq] at hfaithful hsteady
  exact (h.exact_walk_iff htables hfaithful hwalk).2
    (h.partsThrough_of_steady htables hfaithful hsteady hwalk _)

/-- However the table is written to between the requests of a walk, its rows are shown in strict
order, and by its end every row that stayed is shown exactly once: exactly if every cursor with
which the walk goes on parts the rows like the row it was made of. -/
theorem walk_exact_iff :
    Exact l.executor tables execution ended answers ↔
      PartsThrough l.executor execution
        (fun row => ended = true ∧ Stays l.executor tables execution answers row) tables 0
        answers := by
  obtain ⟨page, h⟩ := outset_of_plan hl hsigns hplan hnature hfresh
  rw [← hl.executor] at htables
  rw [hl.sort_eq] at hfaithful
  exact h.exact_walk_iff htables hfaithful hwalk

end Main

/-- The same quotes after some writes: one is taken back, one has got its character, one is new. -/
def respoken : Table where
  columns := Catalog.movieQuotes.columns
  rows := [spokenRow 2 (.text "Sam"), spokenRow 3 (.text "Ilsa"), spokenRow 4 (.text "Rick"),
    spokenRow 5 (.text "Ilsa")]

/-- The quotes are written to after the first request. -/
def spokenAt : Nat → Table
  | 0 => spoken
  | _ + 1 => respoken

theorem isOf_respoken : respoken.IsOf ⟨Catalog.movieQuotes, 20, 100⟩ :=
  ⟨rfl, by decide +kernel, by decide +kernel⟩

theorem serves_respoken : quoteListing.Serves executionByCharacter 2 respoken ∧
    respoken.Steady (quoteListing.executor.sortOf executionByCharacter) :=
  serves_byCharacter isOf_respoken ⟨_, rfl, rfl⟩ (by decide +kernel)

theorem serves_spokenAt (i : Nat) : quoteListing.Serves executionByCharacter 2 (spokenAt i) ∧
    (spokenAt i).Steady (quoteListing.executor.sortOf executionByCharacter) := by
  cases i with
  | zero => exact serves_spoken
  | succ i => exact serves_respoken

theorem reads_spokenAt (i : Nat) : ∀ row ∈ (spokenAt i).rows, (spokenAt i).reads row = true := by
  cases i with
  | zero => exact reads_spoken
  | succ i => exact (by decide +kernel : ∀ row ∈ respoken.rows, respoken.reads row = true)

theorem spokenAt_exact :
    ∃ ended answers, quoteListing.Walk (fun i => (spokenAt i).run) byCharacter
        (fun i => ({ date := default }, i)) ended 0 byCharacter answers ∧
      (ended = true ∨ answers.length = 3) ∧
      Exact quoteListing.executor spokenAt executionByCharacter ended answers := by
  have hl : quoteListing.IsFor ⟨Catalog.movieQuotes, 20, 100⟩ := ⟨rfl, rfl⟩
  have hsigns : quoteListing.Signs := ⟨rfl, by decide +kernel⟩
  have htables := fun i => (serves_spokenAt i).1.isOf
  have hfaithful := fun i => (serves_spokenAt i).1.faithful
  have hsteady := fun i => (serves_spokenAt i).2
  obtain ⟨page, h⟩ := outset_of_plan hl hsigns plan_byCharacter rfl rfl
  have hpage : page.pageSize = 2 := h.limit_eq.symm
  obtain ⟨ended, answers, hwalk, hend⟩ :=
    h.exists_walk (fun i => hpage ▸ (serves_spokenAt i).1) reads_spokenAt hsteady _ 3
  refine ⟨ended, answers, hwalk, hend, ?_⟩
  exact (walk_exact_iff hl hsigns plan_byCharacter rfl rfl htables hfaithful hwalk).2
    (h.partsThrough_of_steady htables hfaithful hsteady hwalk _)

end Listing
end RecordQuery
