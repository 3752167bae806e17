import RecordQuery.Model.Kind
import RecordQuery.Store.Table

/-!
# Queryable models

A model declares which of its columns can be filtered, sorted and searched; a column that it does
not name cannot be reached by a request. Its metadata are the declaration after it has been checked
against the columns, together with the sizes of pages.

* `Metadata.ofModel?` refuses a declaration that names an unknown column.
* `Metadata.effectiveSort` completes an order by the unique key.
* `Metadata.describe` is the description that clients can read.
-/

namespace RecordQuery

open RecordQuery.Store

/-- A condition on a column that a model defines for itself. -/
abbrev CustomFilter := (column : String) → Value → Predicate

structure Model where
  name : String
  columns : List Column
  filterable : List String
  sortable : List String
  searchable : List String := []
  defaultSort : List SortCriterion := []
  caseSensitive : List String := []
  enumOptions : List (String × List String) := []
  customFilters : List (String × CustomFilter) := []
  hiddenFields : List String := []
  relations : List (String × String) := []
  softDeleteField : Option String := some "deleted_at"
  uniqueKey : String := "id"
  pageSize : Int := 20
  /-- The names by which expressions call characters. -/
  characterNames : Pattern.CharacterNames := Pattern.characterNamed?

/-- A declaration that names columns the model does not have. -/
structure UnknownColumns where
  model : String
  columns : List String
deriving DecidableEq, Repr

/-- Texts in order, each once. -/
def sortedNames (names : List String) : List String :=
  (names.foldl (fun acc n => if acc.contains n then acc else acc ++ [n]) []).mergeSort
    fun a b => decide (a ≤ b)

def UnknownColumns.message (e : UnknownColumns) : String :=
  e.model ++ ": unknown columns declared queryable: " ++ ", ".intercalate e.columns

namespace Model

def hasColumn (m : Model) (name : String) : Bool := m.columns.any fun c => c.name == name

/-- The columns that a declaration names. -/
def declared (m : Model) : List String :=
  m.filterable ++ m.sortable ++ m.searchable ++ m.relations.map (·.2) ++ [m.uniqueKey] ++
    m.softDeleteField.toList

def unknownColumns (m : Model) : List String :=
  sortedNames (m.declared.filter fun name => !m.hasColumn name)

end Model

structure Metadata where
  model : Model
  pageSize : Int
  maxPageSize : Int

namespace Metadata

/-- The metadata of a model. The default size of a page is at most the greatest one. -/
def ofModel? (m : Model) (maxPageSize : Int) (defaultPageSize : Option Int := none) :
    Except UnknownColumns Metadata :=
  if m.unknownColumns.isEmpty then
    let size := match defaultPageSize with
      | some n => if n = 0 then m.pageSize else n
      | none => m.pageSize
    .ok { model := m, pageSize := min size maxPageSize, maxPageSize }
  else .error { model := m.name, columns := m.unknownColumns }

variable (md : Metadata)

def isFilterable (field : String) : Bool := md.model.filterable.contains field
def isSortable (field : String) : Bool := md.model.sortable.contains field
def isSearchable (field : String) : Bool := md.model.searchable.contains field
def isCaseSensitive (field : String) : Bool := md.model.caseSensitive.contains field

def filterableFields : List String := sortedNames md.model.filterable
def sortableFields : List String := sortedNames md.model.sortable
def searchableFields : List String := md.model.searchable

def options? (field : String) : Option (List String) := md.model.enumOptions.lookup field

/-- The kind of a field; what is no column counts as text. -/
def kind (field : String) : Kind :=
  match md.model.columns.find? fun c => c.name == field with
  | some c => if (md.options? field).isSome then .enum else .ofColumnType c.type
  | none => .text

def customFilter? (field : String) : Option CustomFilter := md.model.customFilters.lookup field

/-- The field has the operator, by its kind or, for a custom filter, by declaration. -/
def supports (field : String) (op : Operator) : Bool :=
  match op with
  | .custom => (md.customFilter? field).isSome
  | op => (md.kind field).operators.contains op

def supportedOperators (field : String) : List Operator := Operator.all.filter (md.supports field)

/-- The column of that name, if the model has it. -/
def column? (name : String) : Except Fault String :=
  if md.model.hasColumn name then .ok name else .error .unknownName

/-- The column and kind of the records' parent in a relation. -/
def relation? (name : String) : Except Fault (String × Kind) :=
  match md.model.relations.lookup name with
  | some column => (md.column? column).map fun c => (c, md.kind column)
  | none => .error .unknownName

/-- A record without the hidden fields. -/
def visible (record : Entries) : Entries :=
  record.filter fun e => !md.model.hiddenFields.contains e.1

/-- The order in force: the one asked for, or else the default one, with the unique key as the last
criterion unless it is among the others. Its direction is that of the criterion before it. -/
def effectiveSort (requested : List SortCriterion) : List SortCriterion :=
  let base := if requested.isEmpty then md.model.defaultSort else requested
  if base.all fun s => s.field != md.model.uniqueKey then
    base ++ [{ field := md.model.uniqueKey,
               direction := (base.getLast?.map (·.direction)).getD .asc }]
  else base

def textList (names : List String) : Value := .list (names.map .text)

def sortValue (sort : List SortCriterion) : Value :=
  .list (sort.map fun s =>
    .mapping [("field", .text s.field), ("direction", .text s.direction.name)])

/-- What clients can read about the model. -/
def describe : Value :=
  .mapping [
    ("model", .text md.model.name),
    ("filters", .mapping (md.filterableFields.map fun name =>
      (name, .mapping [
        ("kind", .text (md.kind name).name),
        ("operators", textList ((md.supportedOperators name).map Operator.name))]))),
    ("sortable", textList md.sortableFields),
    ("searchable", textList md.searchableFields),
    ("defaultSort", sortValue md.model.defaultSort),
    ("pagination", .mapping [
      ("defaultPageSize", .int md.pageSize),
      ("maxPageSize", .int md.maxPageSize)]),
    ("relations", textList (sortedNames (md.model.relations.map (·.1))))]

end Metadata
end RecordQuery
