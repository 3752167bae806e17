import RecordQuery.Number.Decimal
import RecordQuery.Calendar.DateTime
import RecordQuery.Uuid

/-!
# Values

The values that requests, records and responses are made of. A request may carry any of them, so
one type holds them all; the kind of a field decides which of them a filter on it accepts.

* `get?` and `put` look up and write an entry of a mapping, whose entries keep their order.
* `isTruthy` tells an absent, zero or empty value from the others.
* `eqv` compares by value: numbers of different types are equal if they are the same number.
-/

namespace RecordQuery

open RecordQuery.Number RecordQuery.Calendar

inductive Value where
  | null
  | bool (b : Bool)
  | int (n : Int)
  | float (x : Binary64)
  | decimal (d : Decimal)
  | date (d : Date)
  | datetime (t : DateTime)
  | uuid (u : Uuid)
  | text (s : String)
  | list (items : List Value)
  | tuple (items : List Value)
  | mapping (entries : List (String × Value))
deriving Inhabited, Repr

/-- Entries by key, in the order in which the keys first came. -/
abbrev Entries := List (String × Value)

namespace Entries

def get? (entries : Entries) (key : String) : Option Value :=
  (entries.find? fun e => e.1 == key).map (·.2)

def has (entries : Entries) (key : String) : Bool := entries.any fun e => e.1 == key

/-- Writes an entry: in place if the key is there, else at the end. -/
def put : Entries → String → Value → Entries
  | [], key, value => [(key, value)]
  | (k, v) :: rest, key, value =>
    if k = key then (k, value) :: rest else (k, v) :: put rest key value

theorem get?_put_self (entries : Entries) (key : String) (value : Value) :
    (put entries key value).get? key = some value := by
  induction entries with
  | nil => simp [put, get?]
  | cons e rest ih =>
    obtain ⟨k, v⟩ := e
    by_cases h : k = key
    · simp [put, get?, h]
    · have hb : (k == key) = false := by simpa using h
      simp only [put, h, if_false]
      simpa [get?, List.find?_cons, hb] using ih

theorem get?_put_ne (entries : Entries) {key other : String} (value : Value) (h : other ≠ key) :
    (put entries key value).get? other = entries.get? other := by
  induction entries with
  | nil =>
    have hb : (key == other) = false := by simpa using fun e : key = other => h e.symm
    simp [put, get?, hb]
  | cons e rest ih =>
    obtain ⟨k, v⟩ := e
    by_cases hk : k = key
    · subst hk
      have hb : (k == other) = false := by simpa using fun e : k = other => h e.symm
      simp [put, get?, hb]
    · simp only [put, hk, if_false]
      by_cases ho : k = other
      · simp [get?, ho]
      · have hb : (k == other) = false := by simpa using ho
        simpa [get?, List.find?_cons, hb] using ih

end Entries

namespace Value

def isNull : Value → Bool
  | .null => true
  | _ => false

/-- The value is neither absent nor zero nor empty. -/
def isTruthy : Value → Bool
  | .null => false
  | .bool b => b
  | .int n => n != 0
  | .float x => !x.isZero
  | .decimal d => !d.isZero
  | .date _ | .datetime _ | .uuid _ => true
  | .text s => s != ""
  | .list items => !items.isEmpty
  | .tuple items => !items.isEmpty
  | .mapping entries => !entries.isEmpty

/-- The value if it is truthy, else `other`. -/
def orElse (v other : Value) : Value := if v.isTruthy then v else other

def isEmptyText : Value → Bool
  | .text s => s == ""
  | _ => false

/-- Absent or the empty text. -/
def isMissing (v : Value) : Bool := v.isNull || v.isEmptyText

/-- The items of a list or tuple. -/
def items? : Value → Option (List Value)
  | .list items => some items
  | .tuple items => some items
  | _ => none

/-- The members of a collection: the items of a list or tuple, the characters of a text, the keys of
a mapping. -/
def members? : Value → Option (List Value)
  | .list items => some items
  | .tuple items => some items
  | .text s => some (s.toList.map fun c => .text (.singleton c))
  | .mapping entries => some (entries.map fun e => .text e.1)
  | _ => none

def entries? : Value → Option Entries
  | .mapping entries => some entries
  | _ => none

def text? : Value → Option String
  | .text s => some s
  | _ => none

/-- A boolean or number as an exact decimal. -/
def number? : Value → Option Decimal
  | .bool b => some (.ofInt (if b then 1 else 0))
  | .int n => some (.ofInt n)
  | .float x => some (.ofBinary64 x)
  | .decimal d => some d
  | _ => none

/-- The order of two times: both or neither has to have an offset. -/
def compareTimes? (a b : DateTime) : Option Ordering :=
  if a.offset.isSome == b.offset.isSome then some (compare a.instant b.instant) else none

/-- The order of two values of one kind. -/
def compare? : Value → Value → Option Ordering
  | .text a, .text b => some (compare a b)
  | .date a, .date b => some (compare a.ordinal b.ordinal)
  | .datetime a, .datetime b => compareTimes? a b
  | .uuid a, .uuid b => some (compare a.value b.value)
  | a, b =>
    match a.number?, b.number? with
    | some x, some y => x.compare? y
    | _, _ => none

mutual

/-- Equality by value. -/
def eqv : Value → Value → Bool
  | .null, .null => true
  | .list xs, .list ys => eqvList xs ys
  | .tuple xs, .tuple ys => eqvList xs ys
  | .mapping xs, .mapping ys => xs.length == ys.length && eqvEntries xs ys
  | a, b => compare? a b == some .eq

def eqvList : List Value → List Value → Bool
  | [], [] => true
  | x :: xs, y :: ys => eqv x y && eqvList xs ys
  | _, _ => false

/-- Every entry of the first mapping has an equal one in the second. -/
def eqvEntries : Entries → Entries → Bool
  | [], _ => true
  | (k, v) :: rest, ys =>
    (match ys.find? fun e => e.1 == k with
      | some (_, w) => eqv v w
      | none => false) && eqvEntries rest ys

end

end Value
end RecordQuery
