import RecordQuery.Request.Brackets
import RecordQuery.Request.GridModel
import RecordQuery.Request.Simple

/-!
# The row-window grammar

Grids that scroll ask for the rows from `startRow` to `endRow`. The filter of a column is an object
with a type and operands, a set of values, or a group of such objects joined by AND.

* `RowWindow.columnFilters` are the filters that a column's object describes.
* `RowWindow.flatSort` is the order written with keys `sort[index][...]`, by their numbers.
* `RowWindow.read` reads a draft.
-/

namespace RecordQuery.RowWindow

open GridModel (entry directionOf)

/-- The operands of a plain condition: those of a range as a list, a list's parts one by one. -/
def operands (operator : String) (spec : Entries) : Value :=
  let value := (spec.get? "filter").getD (entry spec "dateFrom")
  let upper := (spec.get? "filterTo").getD (entry spec "dateTo")
  if operator = "between" then .list ([value, upper].filter fun v => !v.isNull)
  else if operator = "in" ∨ operator = "notIn" then .list (Params.splitCommas value)
  else value

def isSet (spec : Entries) : Bool := Params.trimmedText (entry spec "filterType") == "set"

/-- The values of a set; absent and empty ones are no values. -/
def setValues (spec : Entries) : Except ParseError (List Value) :=
  match ((entry spec "values").orElse (.list [])).members? with
  | some values => .ok values
  | none => .error (.fault .unsuitable)

/-- The filter of an object that is no group. -/
def plainFilter (field : String) (spec : Entries) : Except ParseError DraftFilter :=
  if isSet spec then
    (setValues spec).map fun values => { field, operator := "in", value := .list values }
  else
    let operator := canonicalOperator ((entry spec "type").orElse (.text "equals"))
    .ok { field, operator, value := operands operator spec }

/-- The conditions of a group may be joined: there are fewer than two, or they are joined by AND. -/
def joins (spec : Entries) (count : Nat) : Bool :=
  count < 2 || (((entry spec "operator").orElse (.text "AND")).trimmed.map Char.toUpper ==
    ['A', 'N', 'D'])

mutual

/-- The filters that a column's object describes, those of a group in their order. -/
def columnFilters (field : String) : Value → Except ParseError (List DraftFilter)
  | .mapping spec =>
    match conditions? field spec with
    | some (count, filters) =>
      if joins spec count then filters else .error (.malformed (.alternatives field))
    | none => (plainFilter field spec).map ([·])
  | _ => .error (.malformed .conditionNotObject)

/-- The number of conditions of a group, and their filters. -/
def conditions? (field : String) :
    Entries → Option (Nat × Except ParseError (List DraftFilter))
  | [] => none
  | (key, v) :: rest =>
    if key = "conditions" then
      match v with
      | .list items => some (items.length, allFilters field items)
      | _ => none
    else conditions? field rest

def allFilters (field : String) : List Value → Except ParseError (List DraftFilter)
  | [] => .ok []
  | v :: rest => do return (← columnFilters field v) ++ (← allFilters field rest)

end

/-- The filters of the filter model, column by column. -/
def modelFilters : Entries → Except ParseError (List DraftFilter)
  | [] => .ok []
  | (key, v) :: rest => do
    let field := fieldName (.text key)
    if field = "" then modelFilters rest
    else if (v.entries?).isNone then throw (.malformed (.columnNotObject field))
    else return (← columnFilters field v) ++ (← modelFilters rest)

def lastEntries (spec : Entries) : Entries := spec.map fun e => (e.1, Params.last e.2)

/-- An object without an operand, whose operator needs one. -/
def isUnfinished (spec : Entries) : Bool :=
  let operator := canonicalOperator (entry spec "type")
  (entry spec "filter").isMissing && operator != "isNull" && operator != "isNotNull"

/-- The filters written with keys `filters[field][...]`. -/
def flatFilters : Entries → Except ParseError (List DraftFilter)
  | [] => .ok []
  | (key, .mapping spec) :: rest => do
    let field := fieldName (.text key)
    let spec := lastEntries spec
    if field = "" ∨ isUnfinished spec then flatFilters rest
    else return (← columnFilters field (.mapping spec)) ++ (← flatFilters rest)
  | _ :: rest => flatFilters rest

def filters (params : Params) : Except ParseError (List DraftFilter) := do
  return (← modelFilters (← GridModel.filterEntries params)) ++
    (← flatFilters (params.tree "filters"))

/-- A criterion with its index. -/
def indexedSort (key : String) : Value → Except ParseError (List (Int × DraftSort))
  | .mapping spec =>
    let field := fieldName (Params.last (entry spec "colId"))
    if key = "" ∨ !key.toList.all Text.isDigit ∨ field = "" then .ok []
    else match Number.readInt key.toList with
      | some index =>
        .ok [(index, { field, direction := directionOf (Params.last (entry spec "sort")) })]
      | none => .error (.fault .unreadable)
  | _ => .ok []

def indexedSorts : Entries → Except ParseError (List (Int × DraftSort))
  | [] => .ok []
  | (key, v) :: rest => do return (← indexedSort key v) ++ (← indexedSorts rest)

def flatSort (params : Params) : Except ParseError (List DraftSort) := do
  let found ← indexedSorts (params.tree "sort")
  return (found.mergeSort fun a b => decide (a.1 ≤ b.1)).map (·.2)

def read (params : Params) : Except ParseError DraftQuery := do
  let filters ← filters params
  let sort := (← GridModel.sort params "colId") ++ (← flatSort params)
  return DraftQuery.withShared
    { grammar := .rowWindow, filters, sort
      pagination := {
        kind := .window
        startRow := params.first ["startRow"]
        endRow := params.first ["endRow"] }
      search := {
        term := .text (Params.trimmedText (params.first ["globalFilter", "search"]))
        fields := params.searchFields } } params

end RecordQuery.RowWindow
