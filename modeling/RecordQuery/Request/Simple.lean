import RecordQuery.Query.Operator
import RecordQuery.Request.Brackets
import RecordQuery.Request.Draft

/-!
# The simple grammar

Filters are written as `filter[field][operator]=value`, an order as `sort=field:direction,...`, a
page as `page` and `pageSize`, or as a cursor.

* `Simple.read` reads a draft; it never fails.
* `DraftQuery.withShared` adds what all grammars have in common.
-/

namespace RecordQuery

/-- Adds what every grammar writes in the same way. -/
def DraftQuery.withShared (draft : DraftQuery) (params : Params) : DraftQuery :=
  let cursor := params.first ["cursor", "after"]
  let format := Params.trimmedText (params.first ["responseFormat", "format"])
  { draft with
    includeDeleted := params.first ["includeDeleted", "include_deleted"]
    includeTotal := Params.affirms (params.first ["includeTotal", "include_total"])
    responseFormat := if format = "" then none else some format
    pagination := { draft.pagination with
      cursor := if cursor.isNull then .null else .text (Params.trimmedText cursor) }
    paramCount := params.length }

/-- The operand of an operator: its list if it takes one, else the last value. -/
def operandOf (operator : String) (v : Value) : Value :=
  if isMultiValued operator then .list (Params.splitCommas v) else Params.last v

namespace Simple

/-- The filters on a field. A value without an operator is one that the field equals. -/
def fieldFilters (field : String) : Value → List DraftFilter
  | .mapping operands =>
    operands.map fun e =>
      let operator := canonicalOperator (.text e.1)
      { field, operator, value := operandOf operator e.2 }
  | v =>
    let v := Params.last v
    if v.isMissing then [] else [{ field, operator := "equals", value := v }]

def filters (params : Params) : List DraftFilter :=
  (params.tree "filter").flatMap fun e =>
    let field := fieldName (.text e.1)
    if field = "" then [] else fieldFilters field e.2

/-- The order written with a key for the field and one for the direction. -/
def sortByKeys (params : Params) : List DraftSort :=
  let field := params.first ["sortBy"]
  if field.isNull then []
  else
    let direction := (params.first ["sortDir", "sortOrder"]).orElse (.text "asc")
    [{ field := fieldName field, direction := .text (Params.lowered direction) }]

/-- A criterion written as a field, optionally followed by a colon and a direction. -/
def sortPart (part : List Char) : List DraftSort :=
  let (name, direction) := Text.cutAt ':' (Text.trimChars part)
  let field := fieldName (.text (.ofList name))
  let direction := Value.orElse (.text (.ofList (direction.getD []))) (.text "asc")
  if field = "" then [] else [{ field, direction := .text (Params.lowered direction) }]

def sortByList (params : Params) : List DraftSort :=
  match params.first ["sort"] with
  | .text s => (Text.splitOn ',' s.toList).flatMap sortPart
  | _ => []

def pagination (params : Params) : DraftPagination :=
  let pageSize := params.first ["pageSize", "per_page", "limit"]
  if (params.first ["cursor", "after"]).isNull then { page := params.first ["page"], pageSize }
  else { kind := .cursor, pageSize }

def read (params : Params) : DraftQuery :=
  DraftQuery.withShared
    { grammar := .simple
      filters := filters params
      sort := sortByKeys params ++ sortByList params
      pagination := pagination params
      search := {
        term := .text (Params.trimmedText (params.first ["search", "q"]))
        fields := params.searchFields } } params

end Simple
end RecordQuery
