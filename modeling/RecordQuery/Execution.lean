import RecordQuery.Cursor
import RecordQuery.Model.Metadata
import RecordQuery.Response.Envelope
import RecordQuery.Response.Serialized

/-!
# Execution

A specification becomes queries to a store, and the replies become an envelope. A page is read with
one row more than it holds, which tells whether there are further rows.

* `Executor.execute` gives the queries that were sent together with the result.
* A slice after a cursor and a numbered slice send one query; only a window beyond the end sends a
  second one, to count.
-/

namespace RecordQuery

open RecordQuery.Store RecordQuery.Number RecordQuery.Calendar

/-- Answers a query, or fails to. -/
abbrev Store := StoreQuery → Except StoreFailure StoreReply

inductive ExecutionError where
  /-- The store failed a query of the model, which it was given so long to answer. -/
  | store (model : String) (timeout : Value) (failure : StoreFailure)
  | fault (f : Fault)
deriving Repr

/-- What is known of a failure of the store. -/
def storeMessage (model : String) (timeout : Value) : StoreFailure → String
  | .timeout => "data store call exceeded " ++ timeout.toText ++ "s model=" ++ model
  | .broken detail => "data store call failed model=" ++ model ++ ": " ++ detail
  | .classified detail => detail

structure Executor where
  metadata : Metadata
  /-- How long a query may take, in seconds. -/
  timeout : Value := .float (.ofRatio false 10 1)
  secret : Option String := none

/-- What is executed: a specification with the conditions that its caller adds. -/
structure ExecutionRequest where
  spec : Specification := {}
  needsTotal : Bool := false
  scope : List Predicate := []
  resourcePath : Option String := none

/-- The queries that were sent, in order, and what came of them. -/
structure Execution where
  queries : List StoreQuery := []
  result : Except ExecutionError Envelope

/-- Rows of a page with the knowledge of what follows them. -/
structure Batch where
  rows : List Row
  hasMore : Bool
  total : Option Nat
deriving Repr

namespace Batch

/-- The first rows up to a number; a negative number leaves out as many at the end. -/
def takeRows (limit : Int) (rows : List Row) : List Row :=
  if 0 ≤ limit then rows.take limit.toNat else rows.take (rows.length - (-limit).toNat)

/-- The batch of a reply that was to have one row more than the limit. -/
def ofReply (limit : Int) (reply : StoreReply) : Batch :=
  { rows := takeRows limit reply.rows
    hasMore := limit < reply.rows.length
    total := reply.total }

/-- The total that follows from a last batch: the rows before it and its own. -/
def knownTotal (offset : Nat) (b : Batch) : Option Nat :=
  match b.total with
  | some n => some n
  | none =>
    if b.hasMore then none
    else if b.rows.isEmpty && offset != 0 then none
    else some (offset + b.rows.length)

/-- Only a count can tell the total: the batch is a window beyond the end. -/
def needsCount (pagination : Pagination) (b : Batch) : Bool :=
  match pagination with
  | .window w => b.total.isNone && !b.hasMore && b.rows.isEmpty && w.startRow != 0
  | _ => false

end Batch

namespace Executor

variable (x : Executor)

/-! ## Queries -/

def columns (names : List String) : Except Fault (List String) := names.mapM x.metadata.column?

def filterPredicate (c : FilterCriterion) : Except Fault Predicate := do
  let column ← x.metadata.column? c.field
  if c.operator = .custom then
    match x.metadata.customFilter? c.field with
    | some condition => return condition column c.value
    | none => throw .unknownName
  else Predicate.criterion? column c

def searchPredicate (s : SearchSpec) : Except Fault Predicate := do
  let _ ← x.columns s.fields
  return Predicate.search s

/-- Deleted records are left out, unless they are asked for or the model keeps none. -/
def visibility (spec : Specification) : Except Fault (List Predicate) :=
  match x.metadata.model.softDeleteField with
  | some field =>
    if spec.includeDeleted then .ok []
    else (x.metadata.column? field).map fun column => [.isNull column]
  | none => .ok []

/-- All conditions: filters, search, visibility and scope. -/
def predicates (req : ExecutionRequest) : Except Fault (List Predicate) := do
  let filters ← req.spec.filters.mapM x.filterPredicate
  let search ← match req.spec.search with
    | some s => (x.searchPredicate s).map ([·])
    | none => pure []
  return filters ++ search ++ (← x.visibility req.spec) ++ req.scope

def orderBy (sort : List SortCriterion) : Except Fault (List SortKey) :=
  sort.mapM fun s => (x.metadata.column? s.field).map fun column =>
    { column, direction := s.direction }

/-- The condition of coming after the position of a cursor. -/
def keyset (sort : List SortCriterion) : Pagination → Except Fault (Option Predicate)
  | .cursor { position := some position, .. } => do
    let _ ← x.columns (sort.map (·.field))
    (Predicate.after sort position).map some
  | _ => .ok none

/-- The time that a query is given: none, unless it is a positive number. -/
def queryTimeout : Value :=
  match x.timeout.compare? (.int 0) with
  | some .gt => x.timeout
  | _ => .null

/-- The query for the rows of a slice. -/
def pageQuery (req : ExecutionRequest) (sort : List SortCriterion) : Except Fault StoreQuery := do
  let pagination := req.spec.pagination
  let predicates ← x.predicates req
  let after ← x.keyset sort pagination
  let orderBy ← x.orderBy sort
  return {
    predicates, after, orderBy
    offset := pagination.firstRow
    limit := pagination.limit + 1
    withTotal := req.needsTotal
    timeout := x.queryTimeout }

/-- The query that only counts what another one selects from. -/
def countQuery (q : StoreQuery) : StoreQuery :=
  { predicates := q.predicates, limit := 0, withTotal := true, timeout := q.timeout }

/-! ## Results -/

/-- The values of a row by the names of the columns. -/
def record (row : Row) : Entries :=
  x.metadata.model.columns.map fun c => (c.name, c.type.read (row.cell c.name))

/-- The values of a row in the fields of an order. -/
def sortValues (sort : List SortCriterion) (row : Row) : List Value :=
  sort.map fun s => (Entries.get? (x.record row) s.field).getD .null

def cursor (sort : List SortCriterion) (row : Row) : String :=
  Cursor.encode x.secret (x.sortValues sort row) sort

/-- What a client sees of a row. -/
def visibleRecord (row : Row) : Except Fault Entries :=
  Value.serializedEntries (x.metadata.visible (x.record row))

def envelope (req : ExecutionRequest) (sort : List SortCriterion) (now : DateTime) (b : Batch) :
    Except Fault Envelope := do
  let records ← b.rows.mapM x.visibleRecord
  let isCursor := req.spec.pagination.isCursor
  let last := if isCursor then b.rows.getLast?.map (x.cursor sort) else none
  return {
    records
    pagination := req.spec.pagination
    totalCount := b.total.map Int.ofNat
    hasMore := some b.hasMore
    nextCursor := if b.hasMore then last else none
    startCursor := if isCursor then b.rows.head?.map (x.cursor sort) else none
    endCursor := last
    appliedFilters := req.spec.filters
    appliedSort := sort
    appliedSearch := req.spec.search
    availableFilterFields := x.metadata.filterableFields
    availableSortFields := x.metadata.sortableFields
    availableSearchFields := x.metadata.searchableFields
    resourcePath := req.resourcePath
    generatedAt := now
    queryTime := some .zero }

def failed {α : Type} (q : StoreQuery) (e : StoreFailure) : Except ExecutionError α :=
  .error (.store x.metadata.model.name q.timeout e)

def finish (req : ExecutionRequest) (sort : List SortCriterion) (now : DateTime) (b : Batch) :
    Except ExecutionError Envelope :=
  (x.envelope req sort now b).mapError .fault

/-- A batch with its total, for which a window beyond the end has to ask the store. -/
def complete (store : Store) (req : ExecutionRequest) (sort : List SortCriterion)
    (now : DateTime) (q : StoreQuery) (b : Batch) : Execution :=
  if b.needsCount req.spec.pagination then
    let count := countQuery q
    match store count with
    | .error e => { queries := [q, count], result := x.failed count e }
    | .ok reply =>
      { queries := [q, count], result := x.finish req sort now { b with total := reply.total } }
  else
    let total := if req.spec.pagination.isCursor then b.total
      else b.knownTotal req.spec.pagination.firstRow
    { queries := [q], result := x.finish req sort now { b with total } }

/-- Executes a specification at the time `now`. -/
def execute (store : Store) (req : ExecutionRequest) (now : DateTime) : Execution :=
  let sort := x.metadata.effectiveSort req.spec.sort
  match x.pageQuery req sort with
  | .error f => { result := .error (.fault f) }
  | .ok q =>
    match store q with
    | .error e => { queries := [q], result := x.failed q e }
    | .ok reply => x.complete store req sort now q (Batch.ofReply req.spec.pagination.limit reply)

end Executor
end RecordQuery
