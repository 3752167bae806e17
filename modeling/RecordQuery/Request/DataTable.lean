import RecordQuery.Number.Numeral
import RecordQuery.Request.GridModel
import RecordQuery.Request.Simple

/-!
# The data-table grammar

Tables with pages send a `filterModel` with items, or with an entry for every field, and number
their pages from zero.

* `DataTable.filters` are the filters of the filter model.
* `DataTable.read` reads a draft.
-/

namespace RecordQuery.DataTable

open GridModel (entry)

/-- The terms of the quick filter. -/
def quickTerms (model : Entries) : List (List Char) :=
  match entry model "quickFilterValues" with
  | .list items => (items.map fun v => Text.trimChars v.chars).filter fun term => !term.isEmpty
  | _ => []

/-- No operand yet: a table sends such items while its user is still typing. -/
def isUnfinished : Value → Bool
  | .list [] => true
  | v => v.isMissing

/-- The operand of an operator: its parts if it takes several. -/
def operand (operator : String) (v : Value) : Value :=
  if isMultiValued operator then .list (Params.splitCommas v) else v

def itemFilter : Value → Except ParseError (List DraftFilter)
  | .mapping item =>
    let field := fieldName ((entry item "field").orElse (entry item "columnField"))
    let operator := canonicalOperator
      ((entry item "operator").orElse ((entry item "operatorValue").orElse (.text "equals")))
    let value := entry item "value"
    .ok (if field = "" ∨ (isUnfinished value ∧ operator ≠ "isNull" ∧ operator ≠ "isNotNull")
      then [] else [{ field, operator, value := operand operator value }])
  | _ => .error (.malformed .itemNotObject)

def itemFilters : List Value → Except ParseError (List DraftFilter)
  | [] => .ok []
  | v :: rest => do return (← itemFilter v) ++ (← itemFilters rest)

/-- Entries of a filter model that are no fields. -/
def modelKeys : List String := ["quickFilterValues", "logicOperator", "quickFilterLogicOperator"]

/-- The filters of an entry: one for every operator, or one for a value that the field equals. -/
def entryFilters (key : String) (v : Value) : List DraftFilter :=
  let field := fieldName (.text key)
  if modelKeys.contains key ∨ field = "" ∨ v.isMissing then []
  else match v with
    | .mapping operands => operands.map fun e =>
      let operator := canonicalOperator (.text e.1)
      { field, operator, value := operand operator e.2 }
    | v => [{ field, operator := "equals", value := v }]

/-- The items of a group may be joined: there are fewer than two, or they are joined by AND. -/
def joins (model : Entries) (count : Nat) : Bool :=
  count < 2 || Params.lowered ((entry model "logicOperator").orElse (.text "and")) == "and"

def filters (model : Entries) : Except ParseError (List DraftFilter) :=
  match entry model "items" with
  | .list items =>
    if joins model items.length then itemFilters items
    else .error (.malformed .itemAlternatives)
  | _ => .ok (model.flatMap fun e => entryFilters e.1 e.2)

/-- A page counted from zero as one counted from one. Negative numbers stay negative, what is no
number stays as it is. -/
def pageFromZero (raw : Value) : Value :=
  if raw.isNull then .null
  else match Number.readInt raw.trimmed with
    | some n => .int (if 0 ≤ n then n + 1 else n)
    | none => raw

/-- The term of the search, or else the terms of the quick filter. -/
def searchTerm (params : Params) (model : Entries) : Value :=
  Value.orElse (.text (Params.trimmedText (params.first ["search", "q"])))
    (.text (.ofList (Text.intercalate [' '] (quickTerms model))))

def read (params : Params) : Except ParseError DraftQuery := do
  let model ← GridModel.filterEntries params
  let filters ← filters model
  let sort ← GridModel.sort params "field"
  return DraftQuery.withShared
    { grammar := .dataTable, filters, sort
      pagination := {
        page := pageFromZero (params.first ["page"])
        pageSize := params.first ["pageSize"] }
      search := { term := searchTerm params model, fields := params.searchFields } } params

end RecordQuery.DataTable
