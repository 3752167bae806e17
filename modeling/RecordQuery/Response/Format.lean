import RecordQuery.Text.Case
import RecordQuery.Value.Text

/-!
# Response formats

* `Format.ofName?` finds a format by its identifier or another name, in letters of either case.
* `Format.resolve` falls back to a default for names that are unknown.
-/

namespace RecordQuery

inductive Format where
  | standard
  | rowModel
  | dataTable
  | queryCache
  | cacheFriendly
  | infiniteScroll
  | cursor
deriving DecidableEq, Repr

/-- The kind of slice for which a format is made. -/
inductive FormatNature where
  | offset
  | window
  | cursor
deriving DecidableEq, Repr

/-- A name that no format has. -/
structure UnknownFormat where
  requested : String
deriving DecidableEq, Repr

def UnknownFormat.message (e : UnknownFormat) : String :=
  "Unsupported response format \"" ++ e.requested ++ "\""

namespace Format

def all : List Format :=
  [standard, rowModel, dataTable, queryCache, cacheFriendly, infiniteScroll, cursor]

def id : Format → String
  | standard => "standard"
  | rowModel => "row-model"
  | dataTable => "data-table"
  | queryCache => "query-cache"
  | cacheFriendly => "cache-friendly"
  | infiniteScroll => "infinite-scroll"
  | cursor => "cursor"

/-- Other names of a format. -/
def aliases : Format → List String
  | standard => ["advanced", "structured", "simple"]
  | rowModel => ["ag-grid"]
  | dataTable => ["mui", "mui-datagrid"]
  | queryCache => ["tanstack-query", "react-query", "tanstack"]
  | cacheFriendly => ["swr"]
  | infiniteScroll => []
  | cursor => ["page-info", "relay"]

def description : Format → String
  | standard => "Standard REST format with full pagination, filter, sort and search metadata"
  | rowModel => "Server-side row model for windowed grids (lastRow sentinel)"
  | dataTable => "Server-side data table with rowCount and zero-based page"
  | queryCache => "Query-cache friendly format with navigation links and timestamp"
  | cacheFriendly => "Format with a stable cache key derived from the applied query"
  | infiniteScroll => "Cursor pagination for infinite scrolling lists"
  | cursor => "Cursor pagination with a pageInfo block"

/-- The format shows the number of all rows. -/
def needsTotal : Format → Bool
  | standard | dataTable | queryCache | cacheFriendly => true
  | rowModel | infiniteScroll | cursor => false

def nature : Format → FormatNature
  | standard | dataTable | queryCache | cacheFriendly => .offset
  | rowModel => .window
  | infiniteScroll | cursor => .cursor

def hasName (f : Format) (name : String) : Bool := f.id == name || f.aliases.contains name

/-- The format of a name, which may stand between blanks and in capitals. -/
def ofName? (requested : Value) : Except UnknownFormat Format :=
  let key := String.ofList (Text.lowerChars requested.trimmedOrEmpty)
  match all.find? (·.hasName key) with
  | some f => .ok f
  | none => .error ⟨requested.toText⟩

/-- The format of a name if it is one, else that of the default name. -/
def resolve (requested : Value) (default : String) : Except UnknownFormat Format :=
  match ofName? requested with
  | .ok f => .ok f
  | .error _ => ofName? (.text default)

theorem mem_all (f : Format) : f ∈ all := by cases f <;> decide

end Format

def FormatNature.name : FormatNature → String
  | offset => "offset"
  | window => "window"
  | cursor => "cursor"

end RecordQuery
