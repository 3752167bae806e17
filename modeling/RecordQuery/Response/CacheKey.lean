import RecordQuery.Digest.Sha256
import RecordQuery.Json.Writer
import RecordQuery.Response.Page
import RecordQuery.Response.Serialized

/-!
# Cache keys

A digest of what was asked for: the resource, the slice, the filters, the order and the search.

* `Envelope.appliedQuery` is what the digest is taken of, `Envelope.cacheKey` the digest.
-/

namespace RecordQuery

/-- A slice without the position that its cursor stands for. -/
def Pagination.value : Pagination → Value
  | .offset p =>
    .mapping [("kind", .text "offset"), ("page", .int p.page), ("page_size", .int p.pageSize)]
  | .window w =>
    .mapping [("kind", .text "window"), ("start_row", .int w.startRow), ("end_row", .int w.endRow)]
  | .cursor c =>
    .mapping [("kind", .text "cursor"), ("token", (c.token.map Value.text).getD .null),
      ("page_size", .int c.pageSize)]

namespace Envelope

def filterValue (c : FilterCriterion) : Except Fault Value := do
  let value ← c.value.serialized
  return .mapping [("field", .text c.field), ("operator", .text c.operator.name),
    ("value", value)]

def filterValues (e : Envelope) : Except Fault Value :=
  (e.appliedFilters.mapM filterValue).map .list

def sortValues (e : Envelope) : Value :=
  .list (e.appliedSort.map fun s =>
    .mapping [("field", .text s.field), ("direction", .text s.direction.name)])

def searchValue (e : Envelope) : Value :=
  match e.appliedSearch with
  | some s => .mapping [("term", .text s.term), ("fields", .list (s.fields.map .text))]
  | none => .null

def appliedQuery (e : Envelope) : Except Fault Value := do
  return .mapping [
    ("resource", textOrNull e.resourcePath),
    ("pagination", e.pagination.value),
    ("filters", ← e.filterValues),
    ("sorting", e.sortValues),
    ("search", e.searchValue)]

def cacheKey (e : Envelope) : Except Fault String := do
  return .ofList (Digest.sha256Hex (Json.chars (Json.sorted (← e.appliedQuery))))

end Envelope
end RecordQuery
