import RecordQuery.Execution
import RecordQuery.Request.Grammar
import RecordQuery.Response.Render
import RecordQuery.Validation.Validator

/-!
# Listings

A listing answers the requests for the records of one model: it reads a draft, validates it,
executes the specification and renders the envelope.

* `Listing.run` answers a request, and `Listing.queries` is what it asks the store on the way.
* A format that continues after cursors turns every request into one for a slice after a cursor.
-/

namespace RecordQuery

open RecordQuery.Store RecordQuery.Calendar

inductive ListingError where
  | malformed (cause : Malformed)
  | violations (all : List Violation)
  /-- The format that is to be used if no other is given does not exist. -/
  | unknownFormat (e : UnknownFormat)
  | execution (e : ExecutionError)
deriving Repr

namespace ListingError

def ofFault (f : Fault) : ListingError := .execution (.fault f)

def ofParse : ParseError → ListingError
  | .malformed cause => .malformed cause
  | .fault f => ofFault f

end ListingError

structure Listing where
  validator : Validator
  executor : Executor
  defaultFormat : String := "standard"

/-- A request for records, with what its caller adds to it. -/
structure ListingRequest where
  params : Params := []
  scope : List Predicate := []
  /-- The scope selects among deleted records. -/
  deletedOnly : Bool := false
  resourcePath : Option String := none

namespace Listing

/-- The number of rows of a window, if both its ends are numbers. -/
def windowSize (p : DraftPagination) : Value :=
  match Number.readInt p.endRow.chars, Number.readInt (p.startRow.orElse (.int 0)).chars with
  | some stop, some start => .int (stop - start)
  | _, _ => .null

/-- The same request for a slice after a cursor. -/
def asCursor (p : DraftPagination) : DraftPagination :=
  { kind := .cursor
    pageSize := if p.kind = .window then windowSize p else p.pageSize
    cursor := p.cursor }

/-- The format that a draft asks for, or the one that suits it. -/
def formatOf (l : Listing) (draft : DraftQuery) : Except UnknownFormat Format :=
  Format.resolve (.text (draft.responseFormat.getD draft.naturalFormat.id)) l.defaultFormat

/-- A draft as its format wants it. -/
def shaped (format : Format) (draft : DraftQuery) : DraftQuery :=
  if format.nature = .cursor ∧ draft.pagination.kind ≠ .cursor then
    { draft with pagination := asCursor draft.pagination }
  else draft

/-- The specification of a draft. -/
def specify (l : Listing) (draft : DraftQuery) : Except ListingError Specification :=
  match l.validator.validate draft with
  | .error f => .error (.ofFault f)
  | .ok outcome =>
    match outcome.spec with
    | some spec => .ok spec
    | none => .error (.violations outcome.violations)

/-- What is executed for a draft in a format. -/
def executionOf (l : Listing) (req : ListingRequest) (draft : DraftQuery) (format : Format) :
    Except ListingError ExecutionRequest := do
  let spec ← l.specify draft
  return {
    spec := if req.deletedOnly then { spec with includeDeleted := true } else spec
    needsTotal := format.needsTotal || draft.includeTotal
    scope := req.scope
    resourcePath := req.resourcePath }

/-- What a request asks for: the format of the answer and what is executed for it. -/
def plan (l : Listing) (req : ListingRequest) :
    Except ListingError (Format × ExecutionRequest) := do
  let draft ← (DraftQuery.read req.params).mapError .ofParse
  let format ← (l.formatOf draft).mapError .unknownFormat
  let execution ← l.executionOf req (shaped format draft) format
  return (format, execution)

/-- Answers a request at the time `now`. -/
def run (l : Listing) (store : Store) (req : ListingRequest) (now : DateTime) :
    Except ListingError Entries := do
  let (format, execution) ← l.plan req
  let envelope ← (l.executor.execute store execution now).result.mapError .execution
  (format.render envelope).mapError .ofFault

/-- The queries that are sent to answer a request. -/
def queries (l : Listing) (store : Store) (req : ListingRequest) (now : DateTime) :
    List StoreQuery :=
  match l.plan req with
  | .ok (_, execution) => (l.executor.execute store execution now).queries
  | .error _ => []

end Listing
end RecordQuery
