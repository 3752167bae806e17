import RecordQuery.Coercion
import RecordQuery.Cursor

/-!
# Violations

What a draft gets wrong: a field, a reason and the value that is refused.

* `Reason.text` is the reason in words.
* `Violation.about` makes the refused value fit for an answer.
* `Refusal` is the result of a check that fails, `gather` collects the results of many checks.
-/

namespace RecordQuery

inductive Reason where
  | notFilterable
  | notSortable
  | notSearchable
  | unknownOperator
  /-- The field does not have the operator. -/
  | unsupportedOperator
  | valueRequired
  | invalid (wanted : Wanted)
  /-- A range does not have two ends. -/
  | twoValuesRequired
  | valuesRequired (op : Operator)
  | singleValueRequired (op : Operator)
  | invalidExpression
  | invalidDirection
  | nothingSearchable
  | notInteger
  | negative
  /-- A window ends where it starts or before. -/
  | emptyWindow
  | cursor (e : CursorError)
  | stated (text : String)
deriving DecidableEq, Repr

namespace Reason

def text : Reason → String
  | notFilterable => "field not filterable"
  | notSortable => "field not sortable"
  | notSearchable => "field not searchable"
  | unknownOperator => "operator not supported"
  | unsupportedOperator => "operator not supported for field"
  | valueRequired => "value required"
  | invalid wanted => wanted.message
  | twoValuesRequired => "between requires exactly two values"
  | valuesRequired op => op.name ++ " requires at least one value"
  | singleValueRequired op => op.name ++ " requires a single value"
  | invalidExpression => "invalid regular expression"
  | invalidDirection => "invalid sort direction"
  | nothingSearchable => "model has no searchable fields"
  | notInteger => "must be an integer"
  | negative => "must not be negative"
  | emptyWindow => "endRow must be greater than startRow"
  | cursor e => e.message
  | stated text => text

/-- The field is not one that may be used in that way. -/
def isWhitelist : Reason → Bool
  | notFilterable | notSortable | notSearchable => true
  | _ => false

end Reason

namespace Value

mutual

/-- A value as an answer can hold it: what is neither number, text nor collection as a text. -/
def answerable : Value → Value
  | .decimal d => .text d.text
  | .date d => .text (toText (.date d))
  | .datetime t => .text (toText (.datetime t))
  | .uuid u => .text u.text
  | .list items => .list (answerableList items)
  | .tuple items => .list (answerableList items)
  | .mapping entries => .mapping (answerableEntries entries)
  | v => v

def answerableList : List Value → List Value
  | [] => []
  | v :: rest => answerable v :: answerableList rest

def answerableEntries : Entries → Entries
  | [] => []
  | (k, v) :: rest => (k, answerable v) :: answerableEntries rest

end

end Value

structure Violation where
  field : String
  reason : Reason
  rejected : Value := .null
deriving Repr

namespace Violation

/-- A violation by a value of any type. -/
def about (field : String) (reason : Reason) (rejected : Value) : Violation :=
  { field, reason, rejected := rejected.answerable }

def value (v : Violation) : Value :=
  .mapping [("field", .text v.field), ("reason", .text v.reason.text),
    ("rejectedValue", v.rejected)]

end Violation

/-- Why a check gives no result. -/
inductive Refusal where
  | violations (all : List Violation)
  | fault (f : Fault)
deriving Repr

def refuse {α : Type} (field : String) (reason : Reason) (rejected : Value) : Except Refusal α :=
  .error (.violations [.about field reason rejected])

/-- What a check accepts, with all that it objects to. -/
structure Checked (α : Type) where
  violations : List Violation := []
  accepted : α

/-- The results of checks that do not depend on each other, up to the first fault. -/
def gather {α : Type} : List (Except Refusal α) → Except Fault (Checked (List α))
  | [] => .ok { accepted := [] }
  | .ok a :: rest => do
    let c ← gather rest
    return { c with accepted := a :: c.accepted }
  | .error (.violations vs) :: rest => do
    let c ← gather rest
    return { c with violations := vs ++ c.violations }
  | .error (.fault f) :: _ => .error f

end RecordQuery
