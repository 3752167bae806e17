import RecordQuery.Request.DataTable
import RecordQuery.Request.RowWindow
import RecordQuery.Response.Format

/-!
# The grammar of a request

* `Grammar.of` tells the grammar of a request by its keys.
* `DraftQuery.read` reads a draft in that grammar.
* `DraftQuery.naturalFormat` is the response format that suits a draft.
-/

namespace RecordQuery

/-- A window of rows and the models of a grid have keys of their own; all else is simple. -/
def Grammar.of (params : Params) : Grammar :=
  if params.has "startRow" ∨ params.has "endRow" then .rowWindow
  else if params.has "filterModel" ∨ params.has "sortModel" then .dataTable
  else .simple

def Grammar.naturalFormat : Grammar → Format
  | rowWindow => .rowModel
  | dataTable => .dataTable
  | simple => .standard

namespace DraftQuery

def read (params : Params) : Except ParseError DraftQuery :=
  match Grammar.of params with
  | .rowWindow => RowWindow.read params
  | .dataTable => DataTable.read params
  | .simple => .ok (Simple.read params)

def naturalFormat (draft : DraftQuery) : Format :=
  if draft.pagination.kind = .cursor then .infiniteScroll else draft.grammar.naturalFormat

end DraftQuery
end RecordQuery
