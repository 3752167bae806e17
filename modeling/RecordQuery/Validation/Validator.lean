import RecordQuery.Validation.Filter
import RecordQuery.Request.Params

/-!
# Validation of drafts

A validator holds a draft against the metadata of a model. It checks every part of the draft and
reports all violations together; each is found without regard to the others.

* `Validator.validate` gives a specification, or the violations.
* In strict mode every violation counts. Otherwise fields that may not be used are dropped.
-/

namespace RecordQuery

structure Validator where
  metadata : Metadata
  maxPageSize : Int
  defaultPageSize : Int
  strict : Bool := true
  secret : Option String := none
  /-- The time at which cursors are read, in seconds. -/
  now : Int := 0

structure Outcome where
  spec : Option Specification := none
  violations : List Violation := []
  dropped : List Violation := []

namespace Validator

/-- A validator with a limit of its own for the size of a page, if it is not zero. -/
def ofMetadata (md : Metadata) (limit : Option Int) (strict : Bool) (secret : Option String)
    (now : Int) : Validator :=
  let greatest := match limit with
    | some n => if n = 0 then md.maxPageSize else n
    | none => md.maxPageSize
  { metadata := md
    maxPageSize := greatest
    defaultPageSize := min md.pageSize greatest
    strict, secret, now }

variable (v : Validator)

/-! ## Order and search -/

def checkSort (draft : DraftSort) : Except Refusal SortCriterion :=
  if !v.metadata.isSortable draft.field then refuse draft.field .notSortable (.text draft.field)
  else match Direction.ofName? (Params.lowered (draft.direction.orElse (.text "asc"))) with
    | some direction => .ok { field := draft.field, direction }
    | none => refuse draft.field .invalidDirection draft.direction

/-- The first criterion of every field. -/
def firstOfEach : List SortCriterion → List SortCriterion
  | [] => []
  | s :: rest => s :: (firstOfEach rest).filter fun t => t.field != s.field

def firstNames : List String → List String
  | [] => []
  | n :: rest => n :: (firstNames rest).filter fun m => m != n

def checkSearch (draft : DraftSearch) : Checked (Option SearchSpec) :=
  let term := String.ofList draft.term.trimmedOrEmpty
  if term = "" then { accepted := none }
  else
    let md := v.metadata
    let (violations, fields) :=
      if draft.fields.isEmpty then
        (if md.searchableFields.isEmpty then
            [Violation.about "search" .nothingSearchable (.text term)] else [],
          md.searchableFields)
      else
        ((draft.fields.filter fun name => !md.isSearchable name).map fun name =>
            Violation.about name .notSearchable (.text name),
          firstNames (draft.fields.filter md.isSearchable))
    { violations, accepted := if fields.isEmpty then none else some { term, fields } }

def checkIncludeDeleted (raw : Value) : Checked Bool :=
  if raw.isMissing then { accepted := false }
  else match Coercion.boolean raw with
    | .ok b => { accepted := b }
    | .error _ =>
      { violations := [.about "includeDeleted" (.invalid .boolean) raw], accepted := false }

/-! ## Slices -/

/-- An integer, or a text that is one. -/
def wholeNumber? : Value → Option Int
  | .bool _ => none
  | .int n => some n
  | .float x => x.toInt?
  | raw => Number.readInt raw.trimmed

/-- The size of a page: the default one if none is given or it is not positive, and never more
than the greatest one. -/
def checkPageSize (raw : Value) : Checked Int :=
  if raw.isMissing then { accepted := v.defaultPageSize }
  else match wholeNumber? raw with
    | none =>
      { violations := [.about "pageSize" .notInteger raw], accepted := v.defaultPageSize }
    | some n => { accepted := if n ≤ 0 then v.defaultPageSize else min n v.maxPageSize }

def checkNonNegative (field : String) (default : Int) (raw : Value) : Checked (Option Int) :=
  if raw.isMissing then { accepted := some default }
  else match wholeNumber? raw with
    | none => { violations := [.about field .notInteger raw], accepted := none }
    | some n =>
      if n < 0 then { violations := [.about field .negative raw], accepted := none }
      else { accepted := some n }

def checkWindow (draft : DraftPagination) : Except Fault (Checked Pagination) := do
  let start := checkNonNegative "startRow" 0 draft.startRow
  let stop := checkNonNegative "endRow" (start.accepted.getD 0 + v.defaultPageSize) draft.endRow
  let violations := start.violations ++ stop.violations
  match start.accepted, stop.accepted with
  | some a, some b =>
    if b ≤ a then
      return {
        violations := violations ++ [.about "endRow" .emptyWindow draft.endRow]
        accepted := .window {} }
    return { violations, accepted := ← Pagination.ofWindow? a (min b (a + v.maxPageSize)) }
  | _, _ => return { violations, accepted := .window {} }

/-- A page after a cursor, which has to belong to the order in force. -/
def checkCursor (sort : List SortCriterion) (draft : DraftPagination) :
    Except Fault (Checked Pagination) := do
  let size := v.checkPageSize draft.pageSize
  let token := String.ofList draft.cursor.trimmedOrEmpty
  if token = "" then
    return { size with accepted := ← Pagination.ofCursor? none size.accepted none }
  match Cursor.decode v.secret v.now token (v.metadata.effectiveSort sort) with
  | .ok position =>
    return {
      size with accepted := ← Pagination.ofCursor? (some token) size.accepted (some position) }
  | .error (.fault f) => throw f
  | .error e =>
    return {
      violations := size.violations ++ [.about "cursor" (.cursor e) (.text token)]
      accepted := ← Pagination.ofCursor? none size.accepted none }

/-- A page by its number, which is at least 1. -/
def checkOffset (draft : DraftPagination) : Except Fault (Checked Pagination) := do
  let size := v.checkPageSize draft.pageSize
  let page := checkNonNegative "page" 1 draft.page
  return {
    violations := size.violations ++ page.violations
    accepted := ← Pagination.ofOffset? (max (page.accepted.getD 1) 1) size.accepted }

def checkPagination (sort : List SortCriterion) (draft : DraftPagination) :
    Except Fault (Checked Pagination) :=
  match draft.kind with
  | .window => v.checkWindow draft
  | .cursor => v.checkCursor sort draft
  | .offset => v.checkOffset draft

/-! ## Drafts -/

/-- All parts of a draft, with all that is wrong with them. -/
def check (draft : DraftQuery) : Except Fault (Checked Specification) := do
  let filters ← gather (draft.filters.map v.metadata.checkFilter)
  let sorts ← gather (draft.sort.map v.checkSort)
  let sort := firstOfEach sorts.accepted
  let search := v.checkSearch draft.search
  let includeDeleted := checkIncludeDeleted draft.includeDeleted
  let pagination ← v.checkPagination sort draft.pagination
  return {
    violations := filters.violations ++ sorts.violations ++ search.violations ++
      includeDeleted.violations ++ pagination.violations
    accepted := {
      filters := filters.accepted
      sort
      pagination := pagination.accepted
      search := search.accepted
      includeDeleted := includeDeleted.accepted } }

/-- Whether a violation only drops what it is about. -/
def drops (violation : Violation) : Bool := !v.strict && violation.reason.isWhitelist

def validate (draft : DraftQuery) : Except Fault Outcome := do
  let c ← v.check draft
  let dropped := c.violations.filter v.drops
  let violations := c.violations.filter fun violation => !v.drops violation
  return { spec := if violations.isEmpty then some c.accepted else none, violations, dropped }

end Validator
end RecordQuery
