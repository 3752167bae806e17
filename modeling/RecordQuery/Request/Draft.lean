import RecordQuery.Value.Basic

/-!
# Draft queries

What a request asks for, before it is held against a model: names of fields without their kinds,
operands and numbers as they were written. All grammars produce the same drafts.
-/

namespace RecordQuery

/-- The grammars in which requests are written. -/
inductive Grammar where
  | rowWindow
  | dataTable
  | simple
deriving DecidableEq, Repr

def Grammar.name : Grammar → String
  | rowWindow => "row-window"
  | dataTable => "data-table"
  | simple => "simple"

structure DraftFilter where
  field : String
  operator : String
  value : Value := .null
deriving Repr

structure DraftSort where
  field : String
  direction : Value := .text "asc"
deriving Repr

inductive SliceKind where
  | offset
  | window
  | cursor
deriving DecidableEq, Repr

def SliceKind.name : SliceKind → String
  | offset => "offset"
  | window => "window"
  | cursor => "cursor"

structure DraftPagination where
  kind : SliceKind := .offset
  page : Value := .null
  pageSize : Value := .null
  startRow : Value := .null
  endRow : Value := .null
  cursor : Value := .null
deriving Repr

structure DraftSearch where
  term : Value := .text ""
  fields : List String := []
deriving Repr

structure DraftQuery where
  grammar : Grammar
  filters : List DraftFilter := []
  sort : List DraftSort := []
  pagination : DraftPagination := {}
  search : DraftSearch := {}
  includeDeleted : Value := .null
  includeTotal : Bool := false
  responseFormat : Option String := none
  paramCount : Nat := 0
deriving Repr

end RecordQuery
