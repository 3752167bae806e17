import RecordQuery.Model.Metadata
import RecordQuery.Text.Blank
import RecordQuery.Text.Case

/-!
# The catalog

The models that are served: films with their quotes, and a table with a column of every type.

* `Registry.find?` looks a model up by its name, in letters of either case and between blanks.
-/

namespace RecordQuery

open RecordQuery.Store

namespace Catalog

/-- Columns that every record has. -/
def identityColumns : List Column := [⟨"id", .uuid⟩]

def historyColumns : List Column :=
  [⟨"created_at", .datetime⟩, ⟨"updated_at", .datetime⟩, ⟨"deleted_at", .datetime⟩]

def movies : Model where
  name := "movies"
  columns := identityColumns ++ historyColumns ++
    [⟨"title", .text⟩, ⟨"genre", .text⟩, ⟨"synopsis", .text⟩, ⟨"status", .text⟩,
      ⟨"rating", .numeric 1 true⟩, ⟨"release_year", .integer⟩, ⟨"release_date", .date⟩,
      ⟨"is_featured", .boolean⟩, ⟨"imdb_code", .text⟩, ⟨"internal_notes", .text⟩]
  filterable := ["id", "title", "genre", "status", "rating", "release_year", "release_date",
    "is_featured", "imdb_code", "created_at"]
  sortable := ["id", "title", "genre", "rating", "release_year", "release_date", "created_at"]
  searchable := ["title", "genre", "synopsis"]
  defaultSort := [{ field := "title" }]
  caseSensitive := ["imdb_code"]
  enumOptions := [("status", ["draft", "active", "archived"])]
  hiddenFields := ["internal_notes"]

def movieQuotes : Model where
  name := "movie_quotes"
  columns := identityColumns ++ historyColumns ++
    [⟨"movie_id", .uuid⟩, ⟨"quote", .text⟩, ⟨"character", .text⟩, ⟨"sort_order", .integer⟩]
  filterable := ["id", "movie_id", "character", "sort_order", "created_at"]
  sortable := ["id", "character", "sort_order", "created_at"]
  searchable := ["quote", "character"]
  defaultSort := [{ field := "sort_order" }]
  relations := [("movie", "movie_id")]

/-- The name is that of a sample with a number or letter. -/
def sampleNamed : CustomFilter := fun column v =>
  .compare .eq column (.text ("lab:" ++ v.toText))

def lab : Model where
  name := "lab"
  columns := [⟨"id", .integer⟩, ⟨"name", .text⟩, ⟨"note", .text⟩, ⟨"score", .float⟩,
    ⟨"price", .numeric 2 true⟩, ⟨"ratio", .numeric 3 false⟩, ⟨"day", .date⟩, ⟨"at", .datetime⟩,
    ⟨"flag", .boolean⟩, ⟨"data", .json⟩, ⟨"ref", .uuid⟩, ⟨"level", .text⟩]
  filterable := ["id", "name", "score", "price", "ratio", "day", "at", "flag", "data", "ref",
    "level"]
  sortable := ["id", "name", "score", "price", "ratio", "day", "at", "level", "ref"]
  searchable := ["name", "note"]
  caseSensitive := ["name"]
  enumOptions := [("level", ["low", "mid", "high"])]
  customFilters := [("name", sampleNamed)]
  hiddenFields := ["note"]
  softDeleteField := none
  pageSize := 7

def model? (name : String) : Option Model := [movies, movieQuotes, lab].find? (·.name == name)

/-- What a column holds in a new record that does not give it. -/
def initialValue (column : String) : Value :=
  let start : Calendar.DateTime := { date := { year := 2026, month := 1, day := 1 } }
  match column with
  | "created_at" | "updated_at" => .datetime start
  | "status" => .text "active"
  | "is_featured" => .bool false
  | "sort_order" => .int 0
  | _ => .null

/-- A row from the values of its columns, of which texts are read by the type of the column.
Nothing is stored for a value that the column cannot keep. -/
def rowOf (m : Model) (values : Entries) : Row :=
  m.columns.map fun c =>
    match values.get? c.name with
    | some v =>
      let v := match v with
        | .text s => if c.type = .json then v else (c.type.valueOfText? s).getD .null
        | v => v
      (c.name, (c.type.keep? v).getD .null)
    | none =>
      match initialValue c.name with
      | .null => (c.name, .null)
      | v => (c.name, (c.type.keep? v).getD .null)

end Catalog

/-- The models that are served, by name. -/
structure Registry where
  entries : List Metadata

namespace Registry

def find? (r : Registry) (name : Value) : Option Metadata :=
  let key := String.ofList (Text.lowerChars name.trimmedOrEmpty)
  r.entries.find? fun md => md.model.name == key

def names (r : Registry) : List String := sortedNames (r.entries.map (·.model.name))

def ofModels (models : List Model) (maxPageSize : Int) (defaultPageSize : Option Int) : Registry :=
  ⟨models.filterMap fun m => (Metadata.ofModel? m maxPageSize defaultPageSize).toOption⟩

end Registry
end RecordQuery
