import RecordQuery.Value.Text

/-!
# Filter operators

The fixed vocabulary of filter operators, and the other names under which clients know them.

* `Operator.ofName?_name`: every operator is found by its name.
* `canonicalOperator` maps an alias to the name of its operator and leaves other texts alone.
-/

namespace RecordQuery

inductive Operator where
  | equals | notEquals | contains | startsWith | endsWith | gt | gte | lt | lte
  | isIn | notIn | isNull | isNotNull | between | regex | custom
deriving DecidableEq, Repr

namespace Operator

/-- All operators, in the order in which they are listed for a field. -/
def all : List Operator :=
  [.equals, .notEquals, .contains, .startsWith, .endsWith, .gt, .gte, .lt, .lte, .isIn, .notIn,
    .isNull, .isNotNull, .between, .regex, .custom]

def name : Operator → String
  | equals => "equals"
  | notEquals => "notEquals"
  | contains => "contains"
  | startsWith => "startsWith"
  | endsWith => "endsWith"
  | gt => "gt"
  | gte => "gte"
  | lt => "lt"
  | lte => "lte"
  | isIn => "in"
  | notIn => "notIn"
  | isNull => "isNull"
  | isNotNull => "isNotNull"
  | between => "between"
  | regex => "regex"
  | custom => "custom"

def ofName? (s : String) : Option Operator := all.find? fun op => op.name == s

theorem mem_all (op : Operator) : op ∈ all := by cases op <;> decide

theorem ofName?_name (op : Operator) : ofName? op.name = some op := by cases op <;> decide

theorem name_of_ofName? {s : String} {op : Operator} (h : ofName? s = some op) : op.name = s := by
  simpa using List.find?_some h

/-- The operand is a text that the field's text is searched for. -/
def isTextual : Operator → Bool
  | contains | startsWith | endsWith | regex => true
  | _ => false

/-- The operand is a list of any length. -/
def isListed : Operator → Bool
  | isIn | notIn => true
  | _ => false

/-- The operator has no operand. -/
def isValueless : Operator → Bool
  | isNull | isNotNull => true
  | _ => false

end Operator

/-- Names that clients use, with the names of the operators that they stand for. -/
def operatorAliases : List (String × String) :=
  [("equals", "equals"), ("eq", "equals"), ("=", "equals"), ("==", "equals"), ("is", "equals"),
    ("notEquals", "notEquals"), ("notEqual", "notEquals"), ("ne", "notEquals"),
    ("neq", "notEquals"), ("!=", "notEquals"), ("not", "notEquals"),
    ("contains", "contains"), ("startsWith", "startsWith"), ("endsWith", "endsWith"),
    ("gt", "gt"), (">", "gt"), ("greaterThan", "gt"), ("after", "gt"),
    ("gte", "gte"), (">=", "gte"), ("greaterThanOrEqual", "gte"), ("onOrAfter", "gte"),
    ("lt", "lt"), ("<", "lt"), ("lessThan", "lt"), ("before", "lt"),
    ("lte", "lte"), ("<=", "lte"), ("lessThanOrEqual", "lte"), ("onOrBefore", "lte"),
    ("in", "in"), ("isAnyOf", "in"), ("notIn", "notIn"), ("isNoneOf", "notIn"),
    ("isNull", "isNull"), ("isEmpty", "isNull"), ("empty", "isNull"), ("blank", "isNull"),
    ("isNotNull", "isNotNull"), ("isNotEmpty", "isNotNull"), ("notEmpty", "isNotNull"),
    ("notBlank", "isNotNull"), ("between", "between"), ("inRange", "between"),
    ("regex", "regex"), ("matches", "regex"), ("custom", "custom")]

/-- The operator name that a text stands for; other texts are left for validation to report. -/
def operatorNamed (s : String) : String := (operatorAliases.lookup s).getD s

/-- The operator name that a value given for one stands for. -/
def canonicalOperator (raw : Value) : String := operatorNamed (.ofList raw.trimmedOrEmpty)

/-- Operators whose operand may be written as one text with commas. -/
def isMultiValued (operator : String) : Bool :=
  operator == "in" || operator == "notIn" || operator == "between"

theorem operatorNamed_idem (s : String) : operatorNamed (operatorNamed s) = operatorNamed s := by
  unfold operatorNamed
  cases h : operatorAliases.lookup s with
  | none => simp [h]
  | some t =>
    have key : ∀ p ∈ operatorAliases, operatorAliases.lookup p.2 = some p.2 := by decide
    obtain ⟨l, r, hl, -⟩ := List.lookup_eq_some_iff.1 h
    have hm : (s, t) ∈ operatorAliases := by rw [hl]; simp
    simp [key _ hm]

end RecordQuery
