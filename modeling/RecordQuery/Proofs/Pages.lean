import RecordQuery.Proofs.Executions
import RecordQuery.Proofs.Places

/-!
# Pages after a cursor

A page is the beginning of what is left of the sorted selection after the position of its cursor.

* `Executor.matching`: the rows of a table that satisfy all conditions of a request.
* `Executor.ordered`: the same rows in the order in force; `ordered_strict` and `ordered_perm` say
  that it is a strict order of exactly these rows.
* `Executor.execute_first`, `execute_after`: the page without a position is the beginning of all
  rows, that of a cursor the beginning of those that come after its place.
* `Executor.execute_refused`: a cursor with a boolean has no page.
* `Executor.decode_cursor`: the cursor of a row brings back its sort values.
-/

namespace RecordQuery

open RecordQuery.Number RecordQuery.Store

/-! ## Records -/

theorem Store.ColumnType.serialized_number (type : ColumnType) (x : Binary64) (whole : Option Int) :
    ∃ w, (type.readNumber x whole).serialized = .ok w := by
  have hplaces (n : Nat) : ∃ w, (ColumnType.places n x).serialized = .ok w := by
    cases x <;> exact ⟨_, rfl⟩
  cases type with
  | numeric n asDecimal =>
    cases asDecimal with
    | true => exact hplaces n
    | false => cases whole <;> exact ⟨_, rfl⟩
  | float | boolean => exact ⟨_, rfl⟩
  | _ => cases whole <;> exact ⟨_, rfl⟩

theorem Store.ColumnType.serialized_readText? (type : ColumnType) (s : String) :
    ∃ w, ((type.readText? s).getD .null).serialized = .ok w := by
  cases type with
  | date =>
    simp only [ColumnType.readText?]
    cases Calendar.Iso.readDate? s.toList <;> exact ⟨_, rfl⟩
  | datetime =>
    simp only [ColumnType.readText?]
    cases Calendar.Iso.readDateTime? s.toList <;> exact ⟨_, rfl⟩
  | uuid =>
    simp only [ColumnType.readText?]
    cases Uuid.read? s.toList <;> exact ⟨_, rfl⟩
  | json =>
    simp only [ColumnType.readText?]
    cases h : Json.read? s.toList with
    | none => exact ⟨_, rfl⟩
    | some v => exact Value.serialized_of_plain (Json.plain_of_read? h)
  | numeric n asDecimal => cases asDecimal <;> exact ⟨_, rfl⟩
  | _ => exact ⟨_, rfl⟩

/-- What is read from a cell has a form in answers. -/
theorem Store.ColumnType.serialized_read (type : ColumnType) (c : Cell) :
    ∃ w, (type.read c).serialized = .ok w := by
  have hnumber (x : Binary64) (whole : Option Int) :
      ∃ w, ((type.readNumber? x whole).getD .null).serialized = .ok w := by
    unfold ColumnType.readNumber?
    cases type.readsNumbers with
    | false => exact ⟨_, rfl⟩
    | true => exact type.serialized_number x whole
  cases c with
  | null => exact ⟨_, rfl⟩
  | integer n => exact hnumber _ (some n)
  | real x => exact hnumber x none
  | text s => exact type.serialized_readText? s

theorem Value.serializedEntries_ok {entries : Entries}
    (h : ∀ e ∈ entries, ∃ w, e.2.serialized = .ok w) :
    ∃ es, serializedEntries entries = .ok es := by
  induction entries with
  | nil => exact ⟨[], rfl⟩
  | cons e entries ih =>
    obtain ⟨w, hw⟩ := h e List.mem_cons_self
    obtain ⟨es, hes⟩ := ih fun e he => h e (List.mem_cons_of_mem _ he)
    obtain ⟨k, v⟩ := e
    exact ⟨(k, w) :: es, by simp [serializedEntries, hw, hes, bind, Except.bind, pure, Except.pure]⟩

namespace Executor

variable (x : Executor)

/-- Every row can be shown. -/
theorem visibleRecord_ok (row : Row) : ∃ record, x.visibleRecord row = .ok record := by
  apply Value.serializedEntries_ok
  intro e he
  obtain ⟨c, -, rfl⟩ := List.mem_map.1 (List.mem_of_mem_filter he)
  exact ColumnType.serialized_read c.type _

theorem visibleRecords_ok (rows : List Row) : ∃ records, rows.mapM x.visibleRecord = .ok records :=
  exists_mapM_ok fun row _ => x.visibleRecord_ok row

/-! ## Selections in order -/

/-- The rows of the table that satisfy all conditions of the request. -/
def matching (t : Table) (req : ExecutionRequest) : List Row :=
  match x.predicates req with
  | .ok ps => t.rows.filter fun row => ps.all fun p => t.accepts p row
  | .error _ => []

/-- The order in force for the request. -/
def sortOf (req : ExecutionRequest) : List SortCriterion := x.metadata.effectiveSort req.spec.sort

/-- The matching rows in the order in force. -/
def ordered (t : Table) (req : ExecutionRequest) : List Row :=
  Table.sort (sortKeys (x.sortOf req)) (x.matching t req)

/-- The row comes after a place in the order in force. -/
def past (req : ExecutionRequest) (cells : List Cell) (row : Row) : Bool :=
  comparePosition (sortKeys (x.sortOf req)) cells row == .lt

/-- The rows of the page that the store gives for the request. -/
def pageRows (store : RecordQuery.Store) (req : ExecutionRequest) : List Row :=
  match x.pageQuery req (x.sortOf req) with
  | .ok q =>
    match store q with
    | .ok reply => Batch.takeRows req.spec.pagination.limit reply.rows
    | .error _ => []
  | .error _ => []

end Executor

/-- The same request for another slice. -/
def ExecutionRequest.paged (req : ExecutionRequest) (pagination : Pagination) : ExecutionRequest :=
  { req with spec := { req.spec with pagination } }

/-- The table is one of the model: it has the columns of the model, cells in the forms in which a
store keeps them, and rows that the unique key tells apart. -/
structure Store.Table.IsOf (t : Table) (md : Metadata) : Prop where
  columns : t.columns = md.model.columns
  sound : t.Sound
  keyed : Keyed md.model.uniqueKey t.rows

/-- The conditions of the request can be decided for the table, and its order has columns. -/
structure Executor.Ready (x : Executor) (t : Table) (req : ExecutionRequest) : Prop where
  selects : ∃ ps, x.predicates req = .ok ps ∧ t.select ps = .ok (x.matching t req)
  sorts : ∀ s ∈ x.sortOf req, x.metadata.model.hasColumn s.field = true

namespace Executor

variable {x : Executor} {t : Table} {req : ExecutionRequest}

theorem past_iff {cells : List Cell} {row : Row} :
    x.past req cells row = true ↔
      comparePosition (sortKeys (x.sortOf req)) cells row = .lt :=
  beq_iff_eq

/-- Past a place come all rows that come after one past it. -/
theorem past_of_before {cells : List Cell} {a b : Row} (ha : x.past req cells a = true)
    (hab : Row.Before (sortKeys (x.sortOf req)) a b) : x.past req cells b = true :=
  past_iff.2 (comparePosition_trans (past_iff.1 ha) hab.isLE)

theorem mem_of_mem_matching {row : Row} (h : row ∈ x.matching t req) : row ∈ t.rows := by
  unfold matching at h
  split at h
  · exact List.mem_of_mem_filter h
  · cases h

theorem matching_keyed (ht : t.IsOf x.metadata) (req : ExecutionRequest) :
    Keyed x.metadata.model.uniqueKey (x.matching t req) := by
  unfold matching
  split
  · exact ht.keyed.filter _
  · exact .nil

section Ordered

variable (hready : x.Ready t req)

include hready

theorem matching_ordered (hcolumns : t.columns = x.metadata.model.columns) (hsound : t.Sound) :
    ∀ row ∈ x.matching t req, row.Ordered (sortKeys (x.sortOf req)) :=
  fun _ hrow => ordered_of_sound hcolumns hsound hready.sorts (mem_of_mem_matching hrow)

theorem sort_matching_filter (hcolumns : t.columns = x.metadata.model.columns) (hsound : t.Sound)
    (p : Row → Bool) : Table.sort (sortKeys (x.sortOf req)) ((x.matching t req).filter p)
      = (x.ordered t req).filter p :=
  Table.sort_filter (matching_ordered hready hcolumns hsound) p

theorem matching_distinct (ht : t.IsOf x.metadata) :
    (x.matching t req).Pairwise fun a b => compareRanks (sortKeys (x.sortOf req)) a b ≠ .eq := by
  obtain ⟨k, hk, hkey⟩ := x.metadata.uniqueKey_mem_sortKeys req.spec.sort
  exact (matching_keyed ht req).pairwise_ne hk hkey
    (matching_ordered hready ht.columns ht.sound)

theorem ordered_strict (ht : t.IsOf x.metadata) :
    (x.ordered t req).Pairwise (Row.Before (sortKeys (x.sortOf req))) :=
  Table.sort_strict (matching_ordered hready ht.columns ht.sound) (matching_distinct hready ht)

end Ordered

theorem ordered_perm (x : Executor) (t : Table) (req : ExecutionRequest) :
    (x.ordered t req).Perm (x.matching t req) :=
  Table.sort_perm _ _

theorem ordered_mem {row : Row} (h : row ∈ x.ordered t req) : row ∈ t.rows :=
  mem_of_mem_matching ((ordered_perm x t req).mem_iff.1 h)

/-! ## Queries and replies -/

/-- A reply holds rows of the table. -/
theorem mem_of_mem_run {q : StoreQuery} {reply : StoreReply}
    (h : t.run q = .ok reply) {row : Row} (hrow : row ∈ reply.rows) : row ∈ t.rows := by
  unfold Table.run at h
  obtain ⟨total, -, h⟩ := bind_eq_ok.1 h
  obtain ⟨rows, hslice, h⟩ := bind_eq_ok.1 h
  cases h
  unfold Table.slice at hslice
  split at hslice
  · cases hslice
    cases hrow
  split at hslice
  · cases hslice
  obtain ⟨selected, hselect, hfetch⟩ := bind_eq_ok.1 hslice
  obtain ⟨rfl, -⟩ := Table.fetch_eq_ok.1 hfetch
  have hsorted := List.mem_of_mem_drop (List.mem_of_mem_take hrow)
  rw [(Table.sort_perm q.orderBy selected).mem_iff, Table.select_eq_filter hselect] at hsorted
  exact List.mem_of_mem_filter hsorted

theorem mem_of_mem_pageRows {row : Row} (h : row ∈ x.pageRows t.run req) : row ∈ t.rows := by
  unfold pageRows at h
  split at h
  · split at h
    · rename_i hreply
      unfold Batch.takeRows at h
      split at h <;> exact mem_of_mem_run hreply (List.mem_of_mem_take h)
    · cases h
  · cases h

theorem orderBy_ok {sort : List SortCriterion}
    (h : ∀ s ∈ sort, x.metadata.model.hasColumn s.field = true) :
    x.orderBy sort = .ok (sortKeys sort) := by
  refine mapM_eq_ok.2 ?_
  induction sort with
  | nil => exact .nil
  | cons s sort ih =>
    refine .cons ?_ (ih fun s hs => h s (List.mem_cons_of_mem _ hs))
    simp [Metadata.column?, h s List.mem_cons_self, Except.map]

theorem columns_ok {sort : List SortCriterion}
    (h : ∀ s ∈ sort, x.metadata.model.hasColumn s.field = true) :
    ∃ names, x.columns (sort.map (·.field)) = .ok names := by
  induction sort with
  | nil => exact ⟨[], rfl⟩
  | cons s sort ih =>
    obtain ⟨names, hnames⟩ := ih fun s hs => h s (List.mem_cons_of_mem _ hs)
    unfold columns at hnames ⊢
    exact ⟨s.field :: names, by
      simp [List.mapM_cons, Metadata.column?, h s List.mem_cons_self, hnames, bind, Except.bind,
        pure, Except.pure]⟩

/-- The query for a slice of the request, if the keyset condition is `after`. -/
theorem pageQuery_paged (hready : x.Ready t req) {pagination : Pagination}
    {after : Option Predicate} (hafter : x.keyset (x.sortOf req) pagination = .ok after) :
    ∃ q ps, x.pageQuery (req.paged pagination) (x.sortOf req) = .ok q ∧
      t.select ps = .ok (x.matching t req) ∧ q.predicates = ps ∧ q.after = after ∧
      q.orderBy = sortKeys (x.sortOf req) ∧ q.offset = pagination.firstRow ∧
      q.limit = pagination.limit + 1 := by
  obtain ⟨ps, hps, hselect⟩ := hready.selects
  have hpaged : x.predicates (req.paged pagination) = .ok ps := hps
  unfold pageQuery
  refine ⟨_, ps, bind_eq_ok.2 ⟨ps, hpaged, bind_eq_ok.2 ⟨after, hafter,
    bind_eq_ok.2 ⟨_, orderBy_ok hready.sorts, rfl⟩⟩⟩, hselect, rfl, rfl, rfl, rfl, rfl⟩

/-- A slice of rows in order is what is kept of all of them by the keyset condition, from the first
row of the slice on. It is answered if its rows can be read. -/
theorem run_paged (hcolumns : t.columns = x.metadata.model.columns) (hsound : t.Sound)
    (hready : x.Ready t req) (pagination : Pagination)
    (hlimit : 0 < pagination.limit + 1 ∧ pagination.limit + 1 ≤ greatestInteger)
    (hfirst : (pagination.firstRow : Int) ≤ greatestInteger) {after : Option Predicate}
    (hafter : x.keyset (x.sortOf req) pagination = .ok after)
    (hsturdy : ∀ p ∈ after, t.Sturdy p) :
    ∃ q total, x.pageQuery (req.paged pagination) (x.sortOf req) = .ok q ∧
      t.run q = (t.fetch ((((x.ordered t req).filter fun row =>
        after.all fun p => t.accepts p row).drop pagination.firstRow).take
          (pagination.limit + 1).toNat)).map fun rows => ⟨rows, total⟩ := by
  obtain ⟨q, ps, hq, hselect, hps, hqafter, horder, hoffset, hqlimit⟩ :=
    pageQuery_paged hready hafter
  have hrows : t.select (q.predicates ++ q.after.toList)
      = .ok ((x.matching t req).filter fun row => after.all fun p => t.accepts p row) := by
    rw [hps, hqafter]
    cases hcase : after with
    | none => simpa using hselect
    | some p =>
      obtain ⟨hplain, hform⟩ := hsturdy p (by simp [hcase])
      obtain ⟨c, hc⟩ := Option.isSome_iff_exists.1 hform
      exact Table.select_append hselect hc (Table.breaks_of_isPlain hplain hc)
  have hrun := Table.run_eq_fetch (hqlimit ▸ hlimit.1) ⟨hoffset ▸ hfirst, hqlimit ▸ hlimit.2⟩ hrows
    (Table.count?_eq_ok (hps ▸ hselect))
  rw [horder, hoffset, hqlimit, sort_matching_filter hready hcolumns hsound] at hrun
  exact ⟨q, _, hq, hrun⟩

/-! ## Envelopes -/

/-- Every batch has an envelope, which shows its rows. -/
theorem envelope_ok (x : Executor) (req : ExecutionRequest) (sort : List SortCriterion)
    (now : Calendar.DateTime) (b : Batch) :
    ∃ e, x.envelope req sort now b = .ok e ∧ b.rows.mapM x.visibleRecord = .ok e.records ∧
      e.hasMore = some b.hasMore ∧ (req.spec.pagination.isCursor = true →
        e.nextCursor = (if b.hasMore then b.rows.getLast?.map (x.cursor sort) else none) ∧
        e.endCursor = b.rows.getLast?.map (x.cursor sort)) := by
  obtain ⟨records, hrecords⟩ := x.visibleRecords_ok b.rows
  unfold envelope
  refine ⟨_, bind_eq_ok.2 ⟨records, hrecords, rfl⟩, hrecords, rfl, ?_⟩
  intro hcursor
  simp [hcursor]

/-- Without a further count, a batch is finished as it is, but for its total. -/
theorem complete_result (x : Executor) {req : ExecutionRequest} (store : RecordQuery.Store)
    (sort : List SortCriterion) (now : Calendar.DateTime) (q : StoreQuery) {b : Batch}
    (h : b.needsCount req.spec.pagination = false) :
    ∃ total, (x.complete store req sort now q b).result
      = x.finish req sort now { b with total := total } := by
  unfold complete
  rw [h]
  exact ⟨_, rfl⟩

theorem finish_ok {sort : List SortCriterion} {now : Calendar.DateTime} {b : Batch} {e : Envelope}
    (h : x.envelope req sort now b = .ok e) : x.finish req sort now b = .ok e :=
  mapError_eq_ok.2 h

/-- Every batch is completed, if a count of what it was selected from is answered. -/
theorem complete_ok {q : StoreQuery} {rows : List Row} (hselect : t.select q.predicates = .ok rows)
    (sort : List SortCriterion) (now : Calendar.DateTime) (b : Batch) :
    ∃ e, (x.complete t.run req sort now q b).result = .ok e := by
  unfold complete
  split
  · simp only [run_countQuery hselect]
    obtain ⟨e, he, -⟩ := x.envelope_ok req sort now { b with total := some rows.length }
    exact ⟨e, finish_ok he⟩
  · obtain ⟨e, he, -⟩ := x.envelope_ok req sort now
      { b with total := if req.spec.pagination.isCursor then b.total
        else b.knownTotal req.spec.pagination.firstRow }
    exact ⟨e, finish_ok he⟩

/-- The envelope shows the first rows of those that are left, with a cursor at the last one. -/
structure Shows (x : Executor) (sort : List SortCriterion) (size : Nat) (rest : List Row)
    (e : Envelope) : Prop where
  records : (rest.take size).mapM x.visibleRecord = .ok e.records
  hasMore : e.hasMore = some (decide (size < rest.length))
  nextCursor : e.nextCursor = if size < rest.length
    then (rest.take size).getLast?.map (x.cursor sort) else none
  endCursor : e.endCursor = (rest.take size).getLast?.map (x.cursor sort)

theorem takeRows_natCast (size : Nat) (rows : List Row) :
    Batch.takeRows size rows = rows.take size := by
  simp [Batch.takeRows]

/-- A reply of one row more than the page holds makes a batch of the page. -/
theorem ofReply_take {size : Nat} {rest : List Row} {reply : StoreReply}
    (h : reply.rows = rest.take (size + 1)) :
    Batch.ofReply size reply = ⟨rest.take size, decide (size < rest.length), reply.total⟩ := by
  have hmore : decide ((size : Int) < reply.rows.length) = decide (size < rest.length) := by
    rw [h, List.length_take, decide_eq_decide]
    omega
  rw [Batch.ofReply, takeRows_natCast, hmore, h, List.take_take, Nat.min_eq_left (by omega)]

/-- A page is answered just if its rows and the one behind them can be read. It shows the first of
the rows that are left. -/
structure Pages (x : Executor) (t : Table) (req : ExecutionRequest) (sort : List SortCriterion)
    (size : Nat) (rest : List Row) (now : Calendar.DateTime) : Prop where
  read : ∀ e, (x.execute t.run req now).result = .ok e →
    ∀ row ∈ rest.take (size + 1), t.reads row = true
  shown : (∀ row ∈ rest.take (size + 1), t.reads row = true) →
    (∃ e, (x.execute t.run req now).result = .ok e ∧ x.Shows sort size rest e) ∧
      x.pageRows t.run req = rest.take size

/-- A page after a cursor is the beginning of what its condition leaves of the ordered rows. -/
theorem execute_cursor (ht : t.IsOf x.metadata) (hready : x.Ready t req) {page : CursorPage}
    (hsize : (page.pageSize : Int) + 1 ≤ greatestInteger) {after : Option Predicate}
    (hafter : x.keyset (x.sortOf req) (.cursor page) = .ok after)
    (hsturdy : ∀ p ∈ after, t.Sturdy p) {rest : List Row}
    (hrest : rest = (x.ordered t req).filter fun row => after.all fun p => t.accepts p row)
    (now : Calendar.DateTime) :
    x.Pages t (req.paged (.cursor page)) (x.sortOf req) page.pageSize rest now := by
  have hlimit : 0 < (Pagination.cursor page).limit + 1 := by
    simp only [Pagination.limit]
    omega
  obtain ⟨q, total, hq, hrun⟩ := run_paged ht.columns ht.sound hready (.cursor page)
    ⟨hlimit, hsize⟩ (by simp [Pagination.firstRow, greatestInteger]) hafter hsturdy
  have hlength : ((page.pageSize : Int) + 1).toNat = page.pageSize + 1 := by omega
  simp only [Pagination.firstRow, Pagination.limit, List.drop_zero, ← hrest, hlength] at hrun
  constructor
  · intro e he
    obtain ⟨q', reply, hq', hreply, -⟩ := execute_eq_ok he
    obtain rfl : q = q' := Except.ok.inj (hq.symm.trans hq')
    rw [hrun] at hreply
    obtain ⟨rows, hrows, -⟩ := map_eq_ok.1 hreply
    exact (Table.fetch_eq_ok.1 hrows).2
  intro hreads
  have hreply : t.run q = .ok ⟨rest.take (page.pageSize + 1), total⟩ := by
    rw [hrun, Table.fetch_eq_ok.2 ⟨rfl, hreads⟩]
    rfl
  have hbatch :
      Batch.ofReply page.pageSize ⟨rest.take (page.pageSize + 1), total⟩
        = ⟨rest.take page.pageSize, decide (page.pageSize < rest.length), total⟩ := ofReply_take rfl
  constructor
  · have hneeds : (Batch.ofReply page.pageSize ⟨rest.take (page.pageSize + 1), total⟩).needsCount
        (req.paged (.cursor page)).spec.pagination = false := rfl
    obtain ⟨total', hresult⟩ := x.complete_result t.run (x.sortOf req) now q hneeds
    obtain ⟨e, he, hrecords, hmore, hcursors⟩ := x.envelope_ok (req.paged (.cursor page))
      (x.sortOf req) now { Batch.ofReply page.pageSize ⟨rest.take (page.pageSize + 1), total⟩ with
        total := total' }
    have hexecute : (x.execute t.run (req.paged (.cursor page)) now).result
        = (x.complete t.run (req.paged (.cursor page)) (x.sortOf req) now q
          (Batch.ofReply page.pageSize ⟨rest.take (page.pageSize + 1), total⟩)).result :=
      congrArg Execution.result (execute_of_reply hq hreply)
    obtain ⟨hnext, hend⟩ := hcursors rfl
    rw [hbatch] at hrecords hmore hnext hend
    refine ⟨e, by rw [hexecute, hresult, finish_ok he], hrecords, hmore, ?_, hend⟩
    simpa using hnext
  · unfold pageRows
    have hsort : x.sortOf (req.paged (.cursor page)) = x.sortOf req := rfl
    rw [hsort, hq]
    simp only [hreply]
    exact congrArg Batch.rows hbatch

/-! ## Pages -/

theorem keyset_first (x : Executor) (sort : List SortCriterion) {page : CursorPage}
    (h : page.position = none) : x.keyset sort (.cursor page) = .ok none := by
  obtain ⟨token, size, position, hsize⟩ := page
  obtain rfl : position = none := h
  rfl

theorem keyset_after {sort : List SortCriterion} {page : CursorPage} {position : List Value}
    (h : page.position = some position)
    (hsort : ∀ s ∈ sort, x.metadata.model.hasColumn s.field = true) :
    x.keyset sort (.cursor page) = (Predicate.after sort position).map some := by
  obtain ⟨token, size, position', hsize⟩ := page
  obtain rfl : position' = some position := h
  obtain ⟨names, hnames⟩ := columns_ok hsort
  simp [keyset, hnames, bind, Except.bind]

theorem sortOf_ne_nil (x : Executor) (req : ExecutionRequest) : x.sortOf req ≠ [] := by
  obtain ⟨s, hs, -⟩ := x.metadata.uniqueKey_mem_effectiveSort req.spec.sort
  exact List.ne_nil_of_mem hs

/-- The first page is the beginning of all matching rows in order. -/
theorem execute_first (ht : t.IsOf x.metadata) (hready : x.Ready t req) {page : CursorPage}
    (hsize : (page.pageSize : Int) + 1 ≤ greatestInteger) (hposition : page.position = none)
    (now : Calendar.DateTime) :
    x.Pages t (req.paged (.cursor page)) (x.sortOf req) page.pageSize (x.ordered t req) now :=
  execute_cursor ht hready hsize (x.keyset_first _ hposition) (by simp) (by simp) now

/-- A further page is the beginning of the rows that come after the place of its position. -/
theorem execute_after (ht : t.IsOf x.metadata) (hready : x.Ready t req) (page : CursorPage)
    (hsize : (page.pageSize : Int) + 1 ≤ greatestInteger) {position : List Value}
    (hposition : page.position = some position) {cells : List Cell}
    (hplaced : t.Placed (x.sortOf req) position cells) {rest : List Row}
    (hrest : rest = (x.ordered t req).filter (x.past req cells)) (now : Calendar.DateTime) :
    x.Pages t (req.paged (.cursor page)) (x.sortOf req) page.pageSize rest now := by
  obtain ⟨p, hp, hsturdy, haccepts⟩ := Table.after_accepts (x.sortOf_ne_nil req) hplaced
  have hafter : x.keyset (x.sortOf req) (.cursor page) = .ok (some p) := by
    rw [keyset_after hposition hready.sorts, hp]
    rfl
  refine execute_cursor ht hready hsize hafter (by simpa using hsturdy) ?_ now
  rw [hrest]
  apply List.filter_congr
  intro row hrow
  exact (haccepts row
    (ordered_of_sound ht.columns ht.sound hready.sorts (ordered_mem hrow))).symm

/-- There is no page after a position with a boolean. -/
theorem execute_refused (hready : x.Ready t req) (page : CursorPage) {position : List Value}
    (hposition : page.position = some position)
    (hlength : position.length = (x.sortOf req).length) {b : Bool} (hbool : .bool b ∈ position)
    (now : Calendar.DateTime) :
    ∃ f, (x.execute t.run (req.paged (.cursor page)) now).result = .error (.fault f) := by
  obtain ⟨f, hf⟩ := Table.after_eq_error hlength hbool
  obtain ⟨ps, hps, -⟩ := hready.selects
  have hpaged : x.predicates (req.paged (.cursor page)) = .ok ps := hps
  have hkeyset : x.keyset (x.sortOf req) (.cursor page) = .error f := by
    rw [keyset_after hposition hready.sorts, hf]
    rfl
  have hquery : x.pageQuery (req.paged (.cursor page)) (x.sortOf req) = .error f := by
    unfold pageQuery
    have hpagination : (req.paged (.cursor page)).spec.pagination = .cursor page := rfl
    simp only [hpaged, hpagination, hkeyset, bind, Except.bind]
  refine ⟨f, ?_⟩
  unfold execute
  have hsort : x.metadata.effectiveSort (req.paged (.cursor page)).spec.sort = x.sortOf req := rfl
  simp only [hsort, hquery]

/-- A request of which one slice is answered is ready for all the others. -/
theorem ready_of_execute {now : Calendar.DateTime} {e : Envelope}
    (h : (x.execute t.run req now).result = .ok e) (hlimit : 0 ≤ req.spec.pagination.limit) :
    x.Ready t req ∧ (req.spec.pagination.firstRow : Int) ≤ greatestInteger ∧
      req.spec.pagination.limit + 1 ≤ greatestInteger := by
  obtain ⟨q, reply, hq, hreply, -⟩ := execute_eq_ok h
  obtain ⟨ps, after, hps, -, hsorts, rfl⟩ := pageQuery_eq_ok hq
  have hpos : 0 < req.spec.pagination.limit + 1 := by omega
  obtain ⟨hrange, ⟨⟨rows, hselect, -⟩, -⟩, -⟩ := (Table.run_eq_ok hpos).1 hreply
  have hmatching : x.matching t req
      = t.rows.filter fun row => ps.all fun p => t.accepts p row := by
    simp only [matching, hps]
  exact ⟨⟨⟨ps, hps, hmatching ▸ Table.select_of_append hselect⟩, hsorts⟩, hrange⟩

/-! ## Cursors -/

theorem get?_record (x : Executor) (row : Row) (field : String) :
    Entries.get? (x.record row) field
      = (x.metadata.model.columns.find? fun c => c.name == field).map fun c =>
        c.type.read (row.cell field) := by
  unfold record Entries.get?
  rw [List.find?_map]
  induction x.metadata.model.columns with
  | nil => rfl
  | cons c columns ih =>
    by_cases hname : c.name == field
    · have hc : c.name = field := beq_iff_eq.1 hname
      simp [Function.comp, hc]
    · simp only [List.find?_cons, Function.comp, hname]
      exact ih

/-- The sort values of a row are the values that a table of the model has in these columns. -/
theorem sortValues_eq (hcolumns : t.columns = x.metadata.model.columns)
    (sort : List SortCriterion) (row : Row) :
    x.sortValues sort row = sort.map fun s => t.value s.field row := by
  unfold sortValues
  apply List.map_congr_left
  intro s _
  rw [get?_record, Table.value, Table.type?, hcolumns, Option.map_map]
  rfl

/-- The cursor of a row brings back its sort values, as they are carried, if these come through. -/
theorem decode_cursor_of_portable (hcolumns : t.columns = x.metadata.model.columns)
    {sort : List SortCriterion} {row : Row}
    (hhonours : Token.Honours (Cursor.effectiveSecret x.secret)
      (Cursor.claims (x.sortValues sort row) sort))
    (hportable : ∀ s ∈ sort, Cursor.Portable (t.value s.field row)) (now : Int) :
    Cursor.decode x.secret now (x.cursor sort row) sort = .ok (t.brought sort row) := by
  have hvalues := sortValues_eq hcolumns sort row
  have hportable : ∀ v ∈ x.sortValues sort row, Cursor.Portable v := by
    rw [hvalues]
    intro v hv
    obtain ⟨s, hs, rfl⟩ := List.mem_map.1 hv
    exact hportable s hs
  have hlength : (x.sortValues sort row).length = sort.length := by simp [sortValues]
  rw [cursor, Cursor.decode_encode hhonours hportable hlength, hvalues, List.map_map]
  rfl

/-- So it is for a row that reads back, under a secret that is its own key. -/
theorem decode_cursor (hcolumns : t.columns = x.metadata.model.columns)
    (hsecret : Token.keys (Cursor.effectiveSecret x.secret)
      = [.ok (Digest.utf8Encode (Cursor.effectiveSecret x.secret))])
    {sort : List SortCriterion} {row : Row} (hnan : row.Ordered (sortKeys sort))
    (hback : ∀ s ∈ sort, t.readsBack s.field row = true)
    (hfloats : ∀ s ∈ sort, ∀ y, t.value s.field row = .float y →
      Json.read? (Json.floatChars y) = some (.float y)) (now : Int) :
    Cursor.decode x.secret now (x.cursor sort row) sort = .ok (t.brought sort row) := by
  refine decode_cursor_of_portable hcolumns (Token.honours_of_keys hsecret _) ?_ now
  intro s hs
  exact Table.portable_of_readsBack (hnan ⟨s.field, s.direction⟩ (List.mem_map_of_mem hs))
    (hback s hs) (hfloats s hs)

end Executor
end RecordQuery
