import RecordQuery.Query.Specification

/-!
# Conditions on rows

The conditions that a query sends to its store, over columns named in the text and values not yet
brought into the form in which the store keeps them.

* `criterion?` is the condition of a filter, `search` that of a search.
* `after` is the condition of coming after a position in an order.
-/

namespace RecordQuery.Store

/-- How two values are compared. -/
inductive Comparison where
  | eq | ne | lt | le | gt | ge
deriving DecidableEq, Repr

/-- Where a text has to occur in the column's text. -/
inductive Placement where
  | anywhere | atStart | atEnd
deriving DecidableEq, Repr

inductive Predicate where
  | always
  | never
  | isNull (column : String)
  | isNotNull (column : String)
  | compare (op : Comparison) (column : String) (value : Value)
  | between (column : String) (low high : Value)
  /-- The column's value is one of the values, or, if `negated`, none of them. -/
  | member (negated : Bool) (column : String) (values : List Value)
  /-- The column's text contains the text, with ASCII letters in lower case if `folded`. -/
  | contains (folded : Bool) (place : Placement) (column : String) (text : String)
  /-- The column's text has a part that the regular expression describes. -/
  | pattern (column : String) (expression : Value)
  | and (p q : Predicate)
  | or (p q : Predicate)
deriving Repr

namespace Predicate

/-- Equality; equality with an absent value asks whether the column is absent. -/
def equal (column : String) : Value → Predicate
  | .null => isNull column
  | v => compare .eq column v

def unequal (column : String) : Value → Predicate
  | .null => isNotNull column
  | v => compare .ne column v

/-- An order comparison, which absent and boolean values do not have. -/
def ordered (op : Comparison) (column : String) : Value → Except Fault Predicate
  | .null => .error .unordered
  | .bool _ => .error .unordered
  | v => .ok (compare op column v)

/-- At least one of the conditions; no condition at all is no restriction. -/
def disjunction : List Predicate → Predicate
  | [] => always
  | [p] => p
  | p :: ps => or p (disjunction ps)

def members (v : Value) : Except Fault (List Value) :=
  match v.members? with
  | some items => .ok items
  | none => .error .unsuitable

def textOf : Value → Except Fault String
  | .text s => .ok s
  | _ => .error .unsuitable

/-- The condition that a filter puts on its column. A custom filter has none of its own. -/
def criterion? (column : String) (c : FilterCriterion) : Except Fault Predicate :=
  match c.operator with
  | .equals => .ok (equal column c.value)
  | .notEquals => .ok (unequal column c.value)
  | .gt => ordered .gt column c.value
  | .gte => ordered .ge column c.value
  | .lt => ordered .lt column c.value
  | .lte => ordered .le column c.value
  | .isIn => (members c.value).map (member false column)
  | .notIn => (members c.value).map (member true column)
  | .between => do
    match ← members c.value with
    | [low, high] => .ok (between column low high)
    | _ => .error .unreadable
  | .isNull => .ok (isNull column)
  | .isNotNull => .ok (isNotNull column)
  | .regex => .ok (pattern column c.value)
  | .contains => (textOf c.value).map (contains (!c.caseSensitive) .anywhere column)
  | .startsWith => (textOf c.value).map (contains (!c.caseSensitive) .atStart column)
  | .endsWith => (textOf c.value).map (contains (!c.caseSensitive) .atEnd column)
  | .custom => .error .unreadable

/-- At least one of the fields contains the term. -/
def search (s : SearchSpec) : Predicate :=
  disjunction (s.fields.map fun name => contains true .anywhere name s.term)

/-- The column comes after the value. An absent value is the lowest of all. -/
def beyond (column : String) (direction : Direction) (value : Value) : Except Fault Predicate :=
  match direction, value with
  | .asc, .null => .ok (isNotNull column)
  | .asc, v => ordered .gt column v
  | .desc, .null => .ok never
  | .desc, v => (ordered .lt column v).map fun p => or p (isNull column)

/-- The conditions of agreeing with a position in the first keys and coming after it in the next
one, for every key. -/
def afterBranches (agreed : List Predicate) :
    List SortCriterion → List Value → Except Fault (List Predicate)
  | [], _ => .ok []
  | _ :: _, [] => .error .missingItem
  | s :: sort, v :: position => do
    let past ← beyond s.field s.direction v
    let rest ← afterBranches (agreed ++ [equal s.field v]) sort position
    return agreed.foldr and past :: rest

/-- The row comes strictly after the position in the order. -/
def after (sort : List SortCriterion) (position : List Value) : Except Fault Predicate :=
  (afterBranches [] sort position).map disjunction

end Predicate
end RecordQuery.Store
