import RecordQuery.Value.Basic

/-!
# Cells

What a store keeps in a column: nothing, an integer of 64 bits, a double or a text.

* `Cell.compare?` orders two values: numbers by value and before texts, texts by code points;
  nothing compares with an absent one.
* `Cell.order` is the order of sorting, in which absent values come first.
* `toward` brings a value to the affinity of a column that it is compared with.
-/

namespace RecordQuery.Store

open RecordQuery.Number

inductive Cell where
  | null
  | integer (n : Int)
  | real (x : Binary64)
  | text (s : String)
deriving DecidableEq, Repr, Inhabited

/-- How a column takes what is compared with it: as a number where that is possible, or as text. -/
inductive Affinity where
  | numeric
  | textual
deriving DecidableEq, Repr

def leastInteger : Int := -0x8000000000000000
def greatestInteger : Int := 0x7FFFFFFFFFFFFFFF

def inRange (n : Int) : Bool := leastInteger ≤ n && n ≤ greatestInteger

namespace Cell

def isNull : Cell → Bool
  | null => true
  | _ => false

/-- The order of two integers, doubles or texts. -/
def compare? : Cell → Cell → Option Ordering
  | null, _ => none
  | _, null => none
  | integer a, integer b => some (compare a b)
  | integer a, real x => (x.compareInt? a).map Ordering.swap
  | real x, integer b => x.compareInt? b
  | real x, real y => x.compare? y
  | text a, text b => some (compare a b)
  | text _, _ => some .gt
  | _, text _ => some .lt

/-- The order of sorting. -/
def order : Cell → Cell → Ordering
  | null, null => .eq
  | null, _ => .lt
  | _, null => .gt
  | a, b => (compare? a b).getD .eq

/-- The text of a cell. -/
def textChars : Cell → List Char
  | null => []
  | integer n => intChars n
  | real x => x.general 15
  | text s => s.toList

def isSpace (c : Char) : Bool := c == ' ' || (0x09 ≤ c.toNat && c.toNat ≤ 0x0D)

/-- A double as an integer if it is one within the range, the extremes apart. -/
def ofReal (x : Binary64) : Cell :=
  match x.toInt? with
  | some n => if leastInteger < n ∧ n < greatestInteger then integer n else real x
  | none => real x

/-- The number that a text is, if it is one. -/
def number? (s : String) : Option Cell :=
  (readScientific (Text.stripChars isSpace s.toList)).map fun n =>
    let whole : Int := if n.negative then -(n.coefficient : Int) else n.coefficient
    if n.exponent = 0 ∧ inRange whole then integer whole else ofReal (.ofScientific n)

/-- A cell as it is compared with a column of some affinity. -/
def toward (a : Affinity) (c : Cell) : Cell :=
  match a, c with
  | .numeric, text s => (number? s).getD c
  | .textual, integer _ => text (.ofList c.textChars)
  | .textual, real _ => text (.ofList c.textChars)
  | _, c => c

end Cell
end RecordQuery.Store
