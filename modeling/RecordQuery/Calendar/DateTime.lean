import RecordQuery.Calendar.Date

/-!
# Points in time

A date with a time of day to the microsecond and, possibly, the offset of its clock from UTC.

* `iso` writes it in the ISO form with a chosen separator; fractions and seconds of the offset
  appear only when they are not zero.
* `instant` is the position on the UTC time line, in microseconds, by which times with an offset
  compare.
-/

namespace RecordQuery.Calendar

open RecordQuery.Number

def microsPerSecond : Nat := 1000000
def microsPerDay : Nat := 86400 * microsPerSecond

structure TimeOfDay where
  hour : Nat := 0
  minute : Nat := 0
  second : Nat := 0
  micro : Nat := 0
  valid : hour < 24 ∧ minute < 60 ∧ second < 60 ∧ micro < 1000000 := by decide
deriving DecidableEq, Repr

/-- The start of a day. -/
def TimeOfDay.midnight : TimeOfDay := {}

/-- The distance of a clock from UTC in microseconds, less than a day. -/
structure Offset where
  micros : Int
  valid : micros.natAbs < 86400 * 1000000 := by decide
deriving DecidableEq, Repr

structure DateTime where
  date : Date
  time : TimeOfDay := .midnight
  offset : Option Offset := none
deriving DecidableEq, Repr

namespace TimeOfDay

instance : Inhabited TimeOfDay := ⟨midnight⟩

def ofParts? (hour minute second micro : Nat) : Option TimeOfDay :=
  if h : hour < 24 ∧ minute < 60 ∧ second < 60 ∧ micro < 1000000 then
    some ⟨hour, minute, second, micro, h⟩
  else none

def micros (t : TimeOfDay) : Nat :=
  ((t.hour * 60 + t.minute) * 60 + t.second) * microsPerSecond + t.micro

/-- Hours, minutes and seconds, and the microseconds if they are not zero. -/
def chars (t : TimeOfDay) : List Char :=
  padded 2 t.hour ++ ':' :: padded 2 t.minute ++ ':' :: padded 2 t.second ++
    if t.micro = 0 then [] else '.' :: padded 6 t.micro

/-- Hours, minutes and seconds, and always six digits of microseconds. -/
def fullChars (t : TimeOfDay) : List Char :=
  padded 2 t.hour ++ ':' :: padded 2 t.minute ++ ':' :: padded 2 t.second ++
    '.' :: padded 6 t.micro

end TimeOfDay

namespace Offset

def utc : Offset := ⟨0, by decide⟩

def ofMicros? (n : Int) : Option Offset :=
  if h : n.natAbs < 86400 * 1000000 then some ⟨n, h⟩ else none

/-- Sign, hours and minutes, then seconds and microseconds as far as they are not zero. -/
def chars (o : Offset) : List Char :=
  let n := o.micros.natAbs
  let seconds := n / microsPerSecond
  let micro := n % microsPerSecond
  let tail :=
    if seconds % 60 = 0 ∧ micro = 0 then []
    else ':' :: padded 2 (seconds % 60) ++ if micro = 0 then [] else '.' :: padded 6 micro
  (if o.micros < 0 then '-' else '+') :: padded 2 (seconds / 3600) ++
    ':' :: padded 2 (seconds / 60 % 60) ++ tail

end Offset

namespace DateTime

instance : Inhabited DateTime := ⟨{ date := default }⟩

/-- The first moment of a day, without an offset. -/
def startOf (d : Date) : DateTime := { date := d }

/-- The ISO form, with `separator` between the day and the time. -/
def iso (separator : Char) (t : DateTime) : List Char :=
  t.date.chars ++ separator :: t.time.chars ++ match t.offset with
    | some o => o.chars
    | none => []

def text (t : DateTime) : String := .ofList (t.iso 'T')

/-- Microseconds since the start of the calendar, by the clock that shows the time. -/
def wallClock (t : DateTime) : Int := (t.date.ordinal * microsPerDay : Nat) + (t.time.micros : Int)

/-- Microseconds since the start of the calendar in UTC; a time without an offset counts as UTC. -/
def instant (t : DateTime) : Int := t.wallClock - (t.offset.map Offset.micros).getD 0

/-- The time with UTC as its offset if it has none. -/
def orUtc (t : DateTime) : DateTime :=
  match t.offset with
  | some _ => t
  | none => { t with offset := some .utc }

end DateTime
end RecordQuery.Calendar
