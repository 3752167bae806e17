import RecordQuery.Proofs.Continuation

/-!
# Asking on

A client asks for a page, and then asks again with the cursor of the answer, as long as there is a
next page. The table may be another one at each request.

* `Listing.Walk`: the answers of such a client.
* `Listing.Outset`: a fresh request for a first page, which can be asked on after any cursor.
* `Outset.gives_first`, `Outset.gives_next`: what the answers show. A page after the cursor of a row
  begins the rows after its place.
* `Outset.refused_next`: after a boolean there is no page.
-/

namespace RecordQuery

open RecordQuery.Store RecordQuery.Calendar

/-- Where a page ends and another one follows, there is a last row and a next one. -/
theorem exists_boundary {α : Type} {size : Nat} (hsize : 0 < size) {rest : List α}
    (hlt : size < rest.length) :
    ∃ init row next after, rest.take size = init ++ [row] ∧ rest.drop size = next :: after ∧
      rest[size - 1]? = some row ∧ rest[size]? = some next := by
  have hrow : size - 1 < rest.length := by omega
  refine ⟨rest.take (size - 1), rest[size - 1], rest[size], rest.drop (size + 1), ?_,
    List.drop_eq_getElem_cons hlt, List.getElem?_eq_getElem hrow, List.getElem?_eq_getElem hlt⟩
  obtain ⟨k, rfl⟩ : ∃ k, size = k + 1 := ⟨size - 1, by omega⟩
  rw [List.take_add_one, List.getElem?_eq_getElem (by omega)]
  rfl

/-! ## Other tables -/

namespace Store.Table

variable {t t' : Table}

theorem operand?_congr (h : t.columns = t'.columns) (column : String) (v : Value) :
    t.operand? column v = t'.operand? column v := by
  unfold operand? type?
  rw [h]

theorem Stands.congr (h : t.columns = t'.columns) {column : String} {v : Value} {c : Cell}
    (hstands : t.Stands column v c) : t'.Stands column v c := by
  cases hstands with
  | absent => exact .absent
  | present bool null operand cell nan =>
    exact .present bool null ((operand?_congr h column v).symm.trans operand) cell nan

/-- A place of a position is one in every table with the same columns. -/
theorem Placed.congr (h : t.columns = t'.columns) {sort : List SortCriterion}
    {position : List Value} {cells : List Cell} (hplaced : t.Placed sort position cells) :
    t'.Placed sort position cells := by
  induction hplaced with
  | nil => exact .nil
  | cons head _ ih => exact .cons (head.congr h) ih

/-- What is read from the rows in the fields of an order compares equal to what is kept, and
floating numbers among it are read back from their texts. -/
structure Faithful (t : Table) (sort : List SortCriterion) : Prop where
  back : ∀ row ∈ t.rows, ∀ s ∈ sort, t.readsBack s.field row = true
  floats : ∀ row ∈ t.rows, ∀ s ∈ sort, ∀ x, t.value s.field row = .float x →
    Json.read? (Json.floatChars x) = some (.float x)

/-- No booleans and no collections are read from the rows in the fields of an order. -/
def Steady (t : Table) (sort : List SortCriterion) : Prop :=
  ∀ row ∈ t.rows, ∀ s ∈ sort, Cursor.isSteady (t.value s.field row) = true

end Store.Table

/-! ## Answers -/

/-- An answer, with the rows of the store that it shows. -/
structure Answer where
  rows : List Row
  body : Entries

namespace Answer

/-- What a body says about the pages around its own. -/
def around (body : Entries) : Entries := ((body.get? "pageInfo").bind Value.entries?).getD body

def hasNext (body : Entries) : Value := ((around body).get? "hasNextPage").getD .null

/-- The cursor with which to go on. -/
def token? (body : Entries) : Option String :=
  (((around body).get? "nextCursor").or ((around body).get? "endCursor")).bind Value.text?

/-- The body shows the rows. -/
def Presents (x : Executor) (rows : List Row) (body : Entries) : Prop :=
  ∃ records, rows.mapM x.visibleRecord = .ok records ∧
    body.get? "data" = some (.list (records.map .mapping))

end Answer

/-- A body for scrolling says itself what is around it. -/
theorem Answer.around_renderInfiniteScroll (e : Envelope) :
    around e.renderInfiniteScroll = e.renderInfiniteScroll := by
  unfold around Envelope.renderInfiniteScroll
  cases e.totalCount <;> rfl

/-- What an envelope of a page says once it is rendered. -/
theorem Executor.Shows.render {x : Executor} {sort : List SortCriterion} {size : Nat}
    {rest : List Row} {e : Envelope} (h : x.Shows sort size rest e) {format : Format}
    (hnature : format.nature = .cursor) :
    ∃ body, format.render e = .ok body ∧ Answer.Presents x (rest.take size) body ∧
      Answer.hasNext body = .bool (decide (size < rest.length)) ∧
      (size < rest.length →
        Answer.token? body = (rest.take size).getLast?.map (x.cursor sort)) := by
  have hmore : e.hasMore.getD false = decide (size < rest.length) := by rw [h.hasMore]; rfl
  have htext (s : Option String) : (Envelope.textOrNull s).text? = s := by cases s <;> rfl
  cases format with
  | infiniteScroll =>
    refine ⟨_, rfl, ⟨e.records, h.records, rfl⟩, ?_, ?_⟩
    · rw [← hmore, Answer.hasNext, Answer.around_renderInfiniteScroll]
      rfl
    · intro hlt
      have hcursor := h.nextCursor
      rw [if_pos hlt] at hcursor
      rw [Answer.token?, Answer.around_renderInfiniteScroll, ← hcursor]
      exact htext _
  | cursor =>
    refine ⟨_, rfl, ⟨e.records, h.records, rfl⟩, ?_, ?_⟩
    · rw [← hmore]
      rfl
    · intro hlt
      rw [← h.endCursor]
      exact htext _
  | _ => cases hnature

namespace Listing

/-- The rows of the store behind the answer to a request. -/
def rowsOf (l : Listing) (store : RecordQuery.Store) (req : ListingRequest) : List Row :=
  match l.plan req with
  | .ok (_, execution) => l.executor.pageRows store execution
  | .error _ => []

/-- The answers to a request that is asked for the `i`-th time and then again, with the cursor of
the answer, as long as there is a next page: to the end, unless the client stops before. The store
and the clock may be others at each time. The clock gives the time of the request, and the seconds
at which its cursor is read. -/
inductive Walk (l : Listing) (stores : Nat → RecordQuery.Store) (req : ListingRequest)
    (clock : Nat → DateTime × Int) :
    (ended : Bool) → Nat → ListingRequest → List Answer → Prop where
  | stop {i : Nat} {asked : ListingRequest} : Walk l stores req clock false i asked []
  | last {i : Nat} {asked : ListingRequest} {body : Entries}
      (answered : (l.at (clock i).2).run (stores i) asked (clock i).1 = .ok body)
      (ends : Answer.hasNext body = .bool false) :
      Walk l stores req clock true i asked [⟨(l.at (clock i).2).rowsOf (stores i) asked, body⟩]
  | more {ended : Bool} {i : Nat} {asked : ListingRequest} {body : Entries} {token : String}
      {answers : List Answer}
      (answered : (l.at (clock i).2).run (stores i) asked (clock i).1 = .ok body)
      (goes : Answer.hasNext body = .bool true) (next : Answer.token? body = some token)
      (rest : Walk l stores req clock ended (i + 1) (req.continued token) answers) :
      Walk l stores req clock ended i asked
        (⟨(l.at (clock i).2).rowsOf (stores i) asked, body⟩ :: answers)

/-- The body shows the first of the rows that are left, with a cursor at the last one where further
rows follow. -/
structure Begins (l : Listing) (sort : List SortCriterion) (size : Nat) (rest : List Row)
    (body : Entries) : Prop where
  presents : Answer.Presents l.executor (rest.take size) body
  hasNext : Answer.hasNext body = .bool (decide (size < rest.length))
  token : size < rest.length →
    Answer.token? body = (rest.take size).getLast?.map (l.executor.cursor sort)

/-- At any time, the request is answered with the first of the rows that are left: just if these and
the one behind them can be read. -/
structure Gives (l : Listing) (t : Table) (sort : List SortCriterion) (size : Nat)
    (asked : ListingRequest) (rest : List Row) : Prop where
  read : ∀ now seconds body, (l.at seconds).run t.run asked now = .ok body →
    ∀ row ∈ rest.take (size + 1), t.reads row = true
  shown : (∀ row ∈ rest.take (size + 1), t.reads row = true) → ∀ now seconds,
    (l.at seconds).rowsOf t.run asked = rest.take size ∧
      ∃ body, (l.at seconds).run t.run asked now = .ok body ∧ l.Begins sort size rest body

/-- Both parts of the listing have the same secret, which is no JSON text and so is its own key. -/
structure Signs (l : Listing) : Prop where
  shared : l.validator.secret = l.executor.secret
  own : Token.keys (Cursor.effectiveSecret l.executor.secret)
    = [.ok (Digest.utf8Encode (Cursor.effectiveSecret l.executor.secret))]

/-- A fresh request that is planned as a first page, and can be asked on after any cursor. -/
structure Outset (l : Listing) (req : ListingRequest) (format : Format)
    (execution : ExecutionRequest) (page : CursorPage) : Prop where
  nature : format.nature = .cursor
  paged : execution.spec.pagination = .cursor page
  position : page.position = none
  signs : l.Signs
  plans : ∀ now, (l.at now).plan req = .ok (format, execution)
  goesOn : ∀ now token position, token ≠ "" → Text.trimChars token.toList = token.toList →
    Cursor.decode l.executor.secret now token (l.executor.sortOf execution) = .ok position →
    (l.at now).plan (req.continued token) = .ok (format, execution.paged
      (.cursor { page with token := some token, position := some position }))

/-- The table can answer requests for the pages of an execution. -/
structure Serves (l : Listing) (execution : ExecutionRequest) (size : Nat) (t : Table) : Prop where
  isOf : t.IsOf l.executor.metadata
  faithful : t.Faithful (l.executor.sortOf execution)
  ready : l.executor.Ready t execution
  size : (size : Int) + 1 ≤ greatestInteger

variable {l : Listing} {t t' : Table} {req asked : ListingRequest} {format : Format}
  {execution : ExecutionRequest} {page : CursorPage}

theorem IsFor.sort_eq {md : Metadata} (hl : l.IsFor md) (execution : ExecutionRequest) :
    md.effectiveSort execution.spec.sort = l.executor.sortOf execution := by
  rw [Executor.sortOf, hl.executor]

theorem run_eq_ok {store : RecordQuery.Store} {now : DateTime} {body : Entries}
    (hplan : l.plan req = .ok (format, execution)) :
    l.run store req now = .ok body ↔
      ∃ e, (l.executor.execute store execution now).result = .ok e ∧
        format.render e = .ok body := by
  unfold run
  rw [hplan]
  constructor
  · intro h
    obtain ⟨_, hplanned, h⟩ := bind_eq_ok.1 h
    cases hplanned
    obtain ⟨e, he, h⟩ := bind_eq_ok.1 h
    exact ⟨e, mapError_eq_ok.1 he, mapError_eq_ok.1 h⟩
  · rintro ⟨e, he, h⟩
    exact bind_eq_ok.2 ⟨_, rfl,
      bind_eq_ok.2 ⟨e, mapError_eq_ok.2 he, mapError_eq_ok.2 h⟩⟩

theorem mem_of_mem_rowsOf {row : Row} (h : row ∈ l.rowsOf t.run req) : row ∈ t.rows := by
  unfold rowsOf at h
  split at h
  · exact Executor.mem_of_mem_pageRows h
  · cases h

theorem paged_self {pagination : Pagination} (h : execution.spec.pagination = pagination) :
    execution.paged pagination = execution := by
  obtain ⟨⟨filters, sort, pagination', search, includeDeleted⟩, needsTotal, scope, path⟩ :=
    execution
  obtain rfl : pagination' = pagination := h
  rfl

/-! ## Single requests -/

/-- A request gives the rows that its plan shows. -/
theorem gives_of_execute (hnature : format.nature = .cursor)
    (hplans : ∀ now, (l.at now).plan asked = .ok (format, execution))
    {sort : List SortCriterion} {size : Nat} {rest : List Row}
    (h : ∀ now, l.executor.Pages t execution sort size rest now) :
    l.Gives t sort size asked rest := by
  constructor
  · intro now seconds body hbody
    obtain ⟨e, he, -⟩ := (run_eq_ok (hplans seconds)).1 hbody
    exact (h now).read e he
  · intro hreads now seconds
    obtain ⟨⟨e, he, hshows⟩, hrows⟩ := (h now).shown hreads
    obtain ⟨body, hrender, hpresents, hnext, htoken⟩ := hshows.render hnature
    refine ⟨?_, body, (run_eq_ok (hplans seconds)).2 ⟨e, he, hrender⟩, hpresents, hnext, htoken⟩
    unfold rowsOf
    rw [hplans seconds]
    exact hrows

section Gives

variable {sort : List SortCriterion} {size : Nat} {rest : List Row} {now : DateTime} {seconds : Int}
  {body : Entries}

/-- An answer shows the first of the rows that are left. -/
theorem Gives.begins (hgives : l.Gives t sort size asked rest)
    (answered : (l.at seconds).run t.run asked now = .ok body) :
    (l.at seconds).rowsOf t.run asked = rest.take size ∧ l.Begins sort size rest body := by
  obtain ⟨hrows, body', hrun, hbegins⟩ :=
    hgives.shown (hgives.read now seconds body answered) now seconds
  rw [hrun] at answered
  cases answered
  exact ⟨hrows, hbegins⟩

/-- Where there is a next page, it is asked for with the cursor of the last row of this one. -/
theorem Gives.goes (hgives : l.Gives t sort size asked rest)
    (answered : (l.at seconds).run t.run asked now = .ok body)
    (goes : Answer.hasNext body = .bool true) :
    size < rest.length ∧
      Answer.token? body = (rest.take size).getLast?.map (l.executor.cursor sort) := by
  obtain ⟨-, -, hnext, htoken⟩ := hgives.begins answered
  rw [hnext] at goes
  have hlt : size < rest.length := by simpa using goes
  exact ⟨hlt, htoken hlt⟩

/-- Where there is no next page, this one holds all the rows that are left. -/
theorem Gives.ends (hgives : l.Gives t sort size asked rest)
    (answered : (l.at seconds).run t.run asked now = .ok body)
    (ends : Answer.hasNext body = .bool false) : rest.length ≤ size := by
  obtain ⟨-, -, hnext, -⟩ := hgives.begins answered
  rw [hnext] at ends
  have hfits : ¬ size < rest.length := by simpa using ends
  omega

end Gives

/-- A request for a first page is answered if its conditions can be decided and the rows of the
table can be read. -/
theorem run_of_ready (ht : t.IsOf l.executor.metadata) (hready : l.executor.Ready t execution)
    (hreads : ∀ row ∈ t.rows, t.reads row = true)
    (hplan : l.plan req = .ok (format, execution)) (hnature : format.nature = .cursor)
    (hpage : execution.spec.pagination = .cursor page) (hposition : page.position = none)
    (hsize : (page.pageSize : Int) + 1 ≤ greatestInteger) (now : DateTime) :
    ∃ body, l.run t.run req now = .ok body := by
  obtain ⟨⟨e, he, hshows⟩, -⟩ := (Executor.execute_first ht hready hsize hposition now).shown
    fun row hrow => hreads row (Executor.ordered_mem (List.mem_of_mem_take hrow))
  rw [paged_self hpage] at he
  obtain ⟨body, hrender, -⟩ := hshows.render hnature
  exact ⟨body, (run_eq_ok hplan).2 ⟨e, he, hrender⟩⟩

/-- A table from which a page of the execution was answered can answer for all of them. -/
theorem serves_of_run (ht : t.IsOf l.executor.metadata)
    (hfaithful : t.Faithful (l.executor.sortOf execution)) {page' : CursorPage}
    (hsize : page'.pageSize = page.pageSize)
    (hplan : l.plan asked = .ok (format, execution.paged (.cursor page'))) {now : DateTime}
    {body : Entries} (hrun : l.run t.run asked now = .ok body) :
    l.Serves execution page.pageSize t := by
  obtain ⟨e, he, -⟩ := (run_eq_ok hplan).1 hrun
  obtain ⟨⟨hselects, hsorts⟩, -, hlimit⟩ :=
    Executor.ready_of_execute he (Int.natCast_nonneg page'.pageSize)
  exact ⟨ht, hfaithful, ⟨hselects, hsorts⟩, hsize ▸ hlimit⟩

theorem Serves.ordered_of_mem {size : Nat} (h : l.Serves execution size t) {row : Row}
    (hrow : row ∈ t.rows) : row.Ordered (sortKeys (l.executor.sortOf execution)) :=
  Executor.ordered_of_sound h.isOf.columns h.isOf.sound h.ready.sorts hrow

theorem Serves.strict {size : Nat} (h : l.Serves execution size t) :
    (l.executor.ordered t execution).Pairwise
      (Row.Before (sortKeys (l.executor.sortOf execution))) :=
  Executor.ordered_strict h.ready h.isOf

theorem outset_of_plan {md : Metadata} (hl : l.IsFor md) (hsigns : l.Signs)
    (hplan : l.plan req = .ok (format, execution)) (hnature : format.nature = .cursor)
    (hfresh : req.isFresh) : ∃ page, Outset l req format execution page := by
  obtain ⟨page, hpage, hposition, hcontinued⟩ := plan_continued hplan hnature hfresh
  refine ⟨page, hnature, hpage, hposition, hsigns, fun now => (hcontinued now).1, ?_⟩
  intro now token position htoken htrim hdecode
  refine (hcontinued now).2 token position htoken htrim ?_
  rw [hsigns.shared, hl.validator, ← hl.executor]
  exact hdecode

namespace Outset

variable (h : Outset l req format execution page)

include h

theorem limit_eq : execution.spec.pagination.limit.toNat = page.pageSize := by
  rw [h.paged]
  exact Int.toNat_natCast _

theorem serves_first (ht : t.IsOf l.executor.metadata)
    (hfaithful : t.Faithful (l.executor.sortOf execution)) {seconds : Int} {now : DateTime}
    {body : Entries} (hrun : (l.at seconds).run t.run req now = .ok body) :
    l.Serves execution page.pageSize t := by
  have hplan := h.plans seconds
  rw [← paged_self h.paged] at hplan
  obtain ⟨hisOf, hback, hready, hsize⟩ :=
    serves_of_run (l := l.at seconds) ht hfaithful rfl hplan hrun
  exact ⟨hisOf, hback, hready, hsize⟩

/-- The request itself is answered with the first of all rows. -/
theorem gives_first (ht : l.Serves execution page.pageSize t) :
    l.Gives t (l.executor.sortOf execution) page.pageSize req (l.executor.ordered t execution) := by
  apply gives_of_execute h.nature h.plans
  intro now
  have hfirst := Executor.execute_first ht.isOf ht.ready ht.size h.position now
  rwa [paged_self h.paged] at hfirst

/-- The cursor at a row is read as a position in the order in force. -/
theorem goesOn_cursor (ht : l.Serves execution page.pageSize t) {row : Row} (hrow : row ∈ t.rows)
    (now : Int) :
    (l.at now).plan (req.continued (l.executor.cursor (l.executor.sortOf execution) row))
      = .ok (format, execution.paged (.cursor { page with
        token := some (l.executor.cursor (l.executor.sortOf execution) row)
        position := some (t.brought (l.executor.sortOf execution) row) })) := by
  refine h.goesOn now _ _ ?_ ?_ ?_
  · intro hempty
    have hne := Cursor.encode_ne_empty l.executor.secret
      (l.executor.sortValues (l.executor.sortOf execution) row) (l.executor.sortOf execution)
    unfold Executor.cursor at hempty
    rw [hempty] at hne
    exact hne rfl
  · exact Cursor.trimChars_encode _ _ _
  · exact Executor.decode_cursor ht.isOf.columns h.signs.own (ht.ordered_of_mem hrow)
      (ht.faithful.back row hrow) (ht.faithful.floats row hrow) now

section Next

variable (ht : l.Serves execution page.pageSize t) {row : Row} (hrow : row ∈ t.rows)

include ht hrow

theorem serves_next (ht' : t'.IsOf l.executor.metadata)
    (hfaithful : t'.Faithful (l.executor.sortOf execution)) {seconds : Int} {now : DateTime}
    {body : Entries} (hrun : (l.at seconds).run t'.run
      (req.continued (l.executor.cursor (l.executor.sortOf execution) row)) now = .ok body) :
    l.Serves execution page.pageSize t' := by
  obtain ⟨hisOf, hback, hready, hsize⟩ :=
    serves_of_run (l := l.at seconds) ht' hfaithful rfl (h.goesOn_cursor ht hrow seconds) hrun
  exact ⟨hisOf, hback, hready, hsize⟩

/-- With the cursor of a row, the request is answered with the first of the rows after its place. -/
theorem gives_next (ht' : l.Serves execution page.pageSize t') {cells : List Cell}
    (hplace : t.place? (l.executor.sortOf execution) row = some cells) :
    l.Gives t' (l.executor.sortOf execution) page.pageSize
      (req.continued (l.executor.cursor (l.executor.sortOf execution) row))
      ((l.executor.ordered t' execution).filter (l.executor.past execution cells)) := by
  apply gives_of_execute h.nature (h.goesOn_cursor ht hrow)
  intro now
  have hplaced := Table.placed_of_place? (ht.faithful.back row hrow) hplace
  exact Executor.execute_after ht'.isOf ht'.ready { page with
      token := some (l.executor.cursor (l.executor.sortOf execution) row)
      position := some (t.brought (l.executor.sortOf execution) row) } ht'.size rfl
    (hplaced.congr (ht.isOf.columns.trans ht'.isOf.columns.symm)) rfl now

/-- A cursor with a boolean is not answered. -/
theorem refused_next (ht' : l.Serves execution page.pageSize t')
    (hplace : t.place? (l.executor.sortOf execution) row = none) (now : DateTime) (seconds : Int)
    (body : Entries) :
    (l.at seconds).run t'.run
      (req.continued (l.executor.cursor (l.executor.sortOf execution) row)) now ≠ .ok body := by
  intro hrun
  obtain ⟨e, he, -⟩ := (run_eq_ok (h.goesOn_cursor ht hrow seconds)).1 hrun
  obtain ⟨s, hs, b, hb⟩ := Table.place?_eq_none (ht.faithful.back row hrow) hplace
  have hbool : .bool b ∈ t.brought (l.executor.sortOf execution) row :=
    List.mem_map.2 ⟨s, hs, by rw [hb]; rfl⟩
  obtain ⟨f, hf⟩ := Executor.execute_refused ht'.ready { page with
    token := some (l.executor.cursor (l.executor.sortOf execution) row)
    position := some (t.brought (l.executor.sortOf execution) row) } rfl
    (by simp [Table.brought]) hbool now
  rw [show (l.at seconds).executor = l.executor from rfl, hf] at he
  cases he

end Next

end Outset

/-! ## Walks -/

section Steps

variable {stores : Nat → RecordQuery.Store} {clock : Nat → DateTime × Int} {ended : Bool} {i : Nat}
  {answers : List Answer}

/-- The request of a walk is answered, if the walk has answers. -/
theorem Walk.answered (h : l.Walk stores req clock ended i asked answers) (hne : answers ≠ []) :
    ∃ body, (l.at (clock i).2).run (stores i) asked (clock i).1 = .ok body := by
  cases h with
  | stop => exact absurd rfl hne
  | last answered => exact ⟨_, answered⟩
  | more answered => exact ⟨_, answered⟩

/-- What an answer of a walk shows are rows of the store that it was asked of. -/
theorem Walk.mem_of_mem_rows {tables : Nat → Table}
    (h : l.Walk (fun i => (tables i).run) req clock ended i asked answers) :
    ∀ j a, answers[j]? = some a → ∀ row ∈ a.rows, row ∈ (tables (i + j)).rows := by
  induction h with
  | stop => simp
  | last =>
    intro j a ha row hrow
    obtain ⟨rfl, rfl⟩ : j = 0 ∧ _ = a := by simpa [List.getElem?_singleton] using ha
    exact mem_of_mem_rowsOf hrow
  | more _ _ _ _ ih =>
    intro j a ha row hrow
    cases j with
    | zero =>
      cases ha
      exact mem_of_mem_rowsOf hrow
    | succ j =>
      rw [show ∀ i, i + (j + 1) = i + 1 + j by omega]
      exact ih j a ha row hrow

/-- A walk begins with the first of the rows that its request gives. -/
theorem Walk.head?_eq (h : l.Walk stores req clock ended i asked answers) (hne : answers ≠ [])
    (hstore : stores i = t.run) {sort : List SortCriterion} {size : Nat} (hsize : 0 < size)
    {rest : List Row} (hgives : l.Gives t sort size asked rest) :
    (answers.flatMap (·.rows)).head? = rest.head? := by
  obtain ⟨k, rfl⟩ : ∃ k, size = k + 1 := ⟨size - 1, by omega⟩
  obtain ⟨body, hbody⟩ := h.answered hne
  rw [hstore] at hbody
  have hfirst := (hgives.begins hbody).1
  rw [← hstore] at hfirst
  cases h with
  | stop => exact absurd rfl hne
  | last => cases rest <;> simp [hfirst]
  | more answered goes =>
    rw [hstore] at answered
    obtain ⟨hlt, -⟩ := hgives.goes answered goes
    cases rest with
    | nil => cases hlt
    | cons r others => simp [hfirst]

end Steps

end Listing
end RecordQuery
