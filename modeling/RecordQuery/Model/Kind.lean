import RecordQuery.Store.Column
import RecordQuery.Query.Operator

/-!
# Kinds of fields

The kind of a field decides which operands a filter on it takes, and which operators it has.

* `Kind.ofColumnType` is the kind of a column, `Kind.operators` lists the operators of a kind.
-/

namespace RecordQuery

inductive Kind where
  | text | integer | float | decimal | date | datetime | boolean | uuid | enum | json
deriving DecidableEq, Repr

namespace Kind

def name : Kind → String
  | text => "text"
  | integer => "integer"
  | float => "float"
  | decimal => "decimal"
  | date => "date"
  | datetime => "datetime"
  | boolean => "boolean"
  | uuid => "uuid"
  | enum => "enum"
  | json => "json"

def ofColumnType : Store.ColumnType → Kind
  | .integer => integer
  | .text => text
  | .float => float
  | .numeric _ asDecimal => if asDecimal then decimal else float
  | .date => date
  | .datetime => datetime
  | .boolean => boolean
  | .json => json
  | .uuid => uuid

/-- Operators of values that have an order. -/
def comparable : List Operator :=
  [.equals, .notEquals, .gt, .gte, .lt, .lte, .isIn, .notIn, .between, .isNull, .isNotNull]

/-- Operators of values that can only be told apart. -/
def identity : List Operator := [.equals, .notEquals, .isIn, .notIn, .isNull, .isNotNull]

def operators : Kind → List Operator
  | text => comparable ++ [.contains, .startsWith, .endsWith, .regex]
  | integer | float | decimal | date | datetime => comparable
  | boolean => [.equals, .notEquals, .isNull, .isNotNull]
  | uuid | enum => identity
  | json => [.isNull, .isNotNull]

end Kind
end RecordQuery
