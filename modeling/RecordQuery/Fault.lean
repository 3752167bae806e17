/-!
# Faults

Causes for which a computation ends without an answer of its own. Most of them cannot arise from a
request that has been validated.

* `callRoom` bounds what a reader takes that calls itself.
-/

namespace RecordQuery

inductive Fault where
  /-- A text or value has no reading as the number that is wanted. -/
  | unreadable
  /-- A value is of a type with which the operation cannot be done. -/
  | unsuitable
  /-- A number is too large for its destination, or a text goes deeper than calls can. -/
  | tooLarge
  /-- A column, relation or filter of that name does not exist. -/
  | unknownName
  /-- A sequence is shorter than the place that is wanted. -/
  | missingItem
  | zeroDivision
  /-- A specification breaks the bounds of its fields. -/
  | invalidSpecification
  /-- An order comparison with an absent or boolean value. -/
  | unordered
  /-- An order comparison with a decimal NaN. -/
  | invalidOperation
  /-- A value is not a text where only a text will do. -/
  | notText
deriving DecidableEq, Repr

/-- The calls that a reader can have open in each other. The interpreter allows for 1000, of which
the calls that lead to a reader take some; their number depends on the caller, and forty are left to
them here. -/
def callRoom : Nat := 960

end RecordQuery
