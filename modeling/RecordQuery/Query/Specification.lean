import RecordQuery.Query.Operator
import RecordQuery.Fault

/-!
# Query specifications

What a validated request asks for: filters, an order, a slice of the result, a search and whether
deleted records count. The bounds of a slice are part of its type.

* `Pagination.ofOffset?`, `ofWindow?` and `ofCursor?` build slices and refuse what is out of bounds.
* `Pagination.offset` and `limit` give the first row and the number of rows of a slice.
-/

namespace RecordQuery

inductive Direction where
  | asc
  | desc
deriving DecidableEq, Repr

namespace Direction

def name : Direction → String
  | asc => "asc"
  | desc => "desc"

def ofName? (s : String) : Option Direction :=
  if s = "asc" then some asc else if s = "desc" then some desc else none

theorem ofName?_name (d : Direction) : ofName? d.name = some d := by cases d <;> decide

end Direction

/-- A filter on a field. The value type names the kind of the field. -/
structure FilterCriterion where
  field : String
  operator : Operator
  value : Value := .null
  valueType : String := "text"
  caseSensitive : Bool := false
deriving Repr

structure SortCriterion where
  field : String
  direction : Direction := .asc
deriving DecidableEq, Repr

/-- A page, counted from 1. -/
structure OffsetPage where
  page : Nat := 1
  pageSize : Nat := 20
  page_pos : 1 ≤ page := by decide
  size_pos : 1 ≤ pageSize := by decide
deriving DecidableEq, Repr

/-- The rows from `startRow` up to but not including `endRow`. -/
structure RowWindow where
  startRow : Nat := 0
  endRow : Nat := 20
  end_pos : 1 ≤ endRow := by decide
deriving DecidableEq, Repr

/-- The rows after a position in the order, which is the list of its sort values. -/
structure CursorPage where
  token : Option String := none
  pageSize : Nat := 20
  position : Option (List Value) := none
  size_pos : 1 ≤ pageSize := by decide
deriving Repr

inductive Pagination where
  | offset (page : OffsetPage)
  | window (rows : RowWindow)
  | cursor (page : CursorPage)
deriving Repr

namespace Pagination

def ofOffset? (page pageSize : Int) : Except Fault Pagination :=
  if h : 1 ≤ page.toNat ∧ 1 ≤ pageSize.toNat then
    .ok (.offset ⟨page.toNat, pageSize.toNat, h.1, h.2⟩)
  else .error .invalidSpecification

def ofWindow? (startRow endRow : Int) : Except Fault Pagination :=
  if h : 0 ≤ startRow ∧ 1 ≤ endRow.toNat then
    .ok (.window ⟨startRow.toNat, endRow.toNat, h.2⟩)
  else .error .invalidSpecification

def ofCursor? (token : Option String) (pageSize : Int) (position : Option (List Value)) :
    Except Fault Pagination :=
  if h : 1 ≤ pageSize.toNat then .ok (.cursor ⟨token, pageSize.toNat, position, h⟩)
  else .error .invalidSpecification

def kind : Pagination → String
  | offset _ => "offset"
  | window _ => "window"
  | cursor _ => "cursor"

/-- The first row of the slice. -/
def firstRow : Pagination → Nat
  | offset p => (p.page - 1) * p.pageSize
  | window w => w.startRow
  | cursor _ => 0

/-- The number of rows of the slice; a window may end before it starts. -/
def limit : Pagination → Int
  | offset p => p.pageSize
  | window w => (w.endRow : Int) - w.startRow
  | cursor c => c.pageSize

def isCursor : Pagination → Bool
  | cursor _ => true
  | _ => false

end Pagination

/-- A term that one of several fields has to contain. -/
structure SearchSpec where
  term : String
  fields : List String
deriving DecidableEq, Repr

structure Specification where
  filters : List FilterCriterion := []
  sort : List SortCriterion := []
  pagination : Pagination := .offset {}
  search : Option SearchSpec := none
  includeDeleted : Bool := false
deriving Repr

end RecordQuery
