import RecordQuery.Json.Reader
import RecordQuery.Request.Draft
import RecordQuery.Request.Malformed
import RecordQuery.Request.Params

/-!
# Models of grids

Grids send their filters and their order as JSON: a `filterModel` that is an object and a
`sortModel` that is an array. Either may also come as a value that has been read already.

* `GridModel.load` is the value of such a parameter.
* `GridModel.sort` is the order that the `sortModel` describes.
-/

namespace RecordQuery.GridModel

/-- The value of a parameter that holds JSON; a blank text is no value. -/
def load (params : Params) (name : String) : Except ParseError Value :=
  match Params.last ((params.get? name).getD .null) with
  | .null => .ok .null
  | .mapping entries => .ok (.mapping entries)
  | .list items => .ok (.list items)
  | v =>
    if v.trimmed.isEmpty then .ok .null
    else match Json.load v.trimmed with
      | .ok w => .ok w
      | .error .malformed => .error (.malformed (.invalidJson name))
      | .error .tooDeep => .error (.fault .tooLarge)

/-- The filter model's entries; no filter model has none. -/
def filterEntries (params : Params) : Except ParseError Entries := do
  match ← load params "filterModel" with
  | .null => .ok []
  | .mapping entries => .ok entries
  | _ => .error (.malformed .filterModelNotObject)

def entry (entries : Entries) (key : String) : Value := (entries.get? key).getD .null

/-- The direction that an entry `sort` gives. -/
def directionOf (v : Value) : Value := .text (Params.lowered (v.orElse (.text "asc")))

/-- A criterion of the order. The field stands under the grid's own key or a common one. -/
def sortEntry (fieldKey : String) : Value → Except ParseError (List DraftSort)
  | .mapping entries =>
    let field := fieldName
      ((entry entries fieldKey).orElse ((entry entries "field").orElse (entry entries "colId")))
    .ok (if field = "" then [] else [{ field, direction := directionOf (entry entries "sort") }])
  | _ => .error (.malformed .sortEntryNotObject)

def sortEntries (fieldKey : String) : List Value → Except ParseError (List DraftSort)
  | [] => .ok []
  | v :: rest => do return (← sortEntry fieldKey v) ++ (← sortEntries fieldKey rest)

def sort (params : Params) (fieldKey : String) : Except ParseError (List DraftSort) := do
  match ← load params "sortModel" with
  | .null => .ok []
  | .list items => sortEntries fieldKey items
  | _ => .error (.malformed .sortModelNotArray)

end RecordQuery.GridModel
