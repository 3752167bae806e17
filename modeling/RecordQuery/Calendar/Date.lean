import RecordQuery.Number.Numeral

/-!
# Dates

Days of the proleptic Gregorian calendar in the years 1 to 9999.

* `ordinal` numbers the days from 1 January of the year 1, which is day 1.
* `ofWeek?` finds a day by its week, the first week being the one with the first Thursday.
-/

namespace RecordQuery.Calendar

open RecordQuery.Number

def isLeap (year : Nat) : Bool := year % 4 == 0 && (year % 100 != 0 || year % 400 == 0)

def daysInMonth (year month : Nat) : Nat :=
  if month = 2 then (if isLeap year then 29 else 28)
  else if month ∈ [4, 6, 9, 11] then 30 else 31

/-- The three numbers name a day. -/
def ValidDate (year month day : Nat) : Prop :=
  (1 ≤ year ∧ year ≤ 9999) ∧ (1 ≤ month ∧ month ≤ 12) ∧ (1 ≤ day ∧ day ≤ daysInMonth year month)

instance (year month day : Nat) : Decidable (ValidDate year month day) := by
  unfold ValidDate; infer_instance

structure Date where
  year : Nat
  month : Nat
  day : Nat
  valid : ValidDate year month day := by decide
deriving DecidableEq, Repr

namespace Date

instance : Inhabited Date := ⟨{ year := 1, month := 1, day := 1 }⟩

def ofParts? (year month day : Nat) : Option Date :=
  if h : ValidDate year month day then some ⟨year, month, day, h⟩ else none

/-- The days of the years before `year`. -/
def daysBeforeYear (year : Nat) : Nat :=
  let y := year - 1
  365 * y + y / 4 - y / 100 + y / 400

/-- The days of the months before `month`. -/
def daysBeforeMonth (year month : Nat) : Nat :=
  (List.range (month - 1)).foldl (fun n m => n + daysInMonth year (m + 1)) 0

def ordinal (d : Date) : Nat := daysBeforeYear d.year + daysBeforeMonth d.year d.month + d.day

/-- The day of a month reached by counting `n` days from the start of the year; `fuel` bounds the
months that are passed. -/
def monthOf (year : Nat) : (fuel month n : Nat) → Nat × Nat
  | 0, month, n => (month, n)
  | fuel + 1, month, n =>
    if n ≤ daysInMonth year month then (month, n)
    else monthOf year fuel (month + 1) (n - daysInMonth year month)

/-- The day with the given ordinal. -/
def ofOrdinal? (n : Nat) : Option Date :=
  if n = 0 then none
  else
    let guess := (n - 1) / 366 + 1
    let year := if daysBeforeYear (guess + 1) < n then
        let later := (List.range 32).map fun k => guess + 1 + k
        (later.filter fun y => daysBeforeYear y < n).getLast?.getD guess
      else guess
    let (month, day) := monthOf year 12 1 (n - daysBeforeYear year)
    ofParts? year month day

/-- The weekday of 1 January, Monday being 0. -/
def firstWeekday (year : Nat) : Nat := (daysBeforeYear year + 1 + 6) % 7

/-- The day before the first week of the year, as an ordinal. -/
def weekOneEve (year : Nat) : Int :=
  let first : Int := daysBeforeYear year + 1
  let weekday : Int := firstWeekday year
  let monday := first - weekday
  (if weekday > 3 then monday + 7 else monday) - 1

/-- The last week of the year has this number. -/
def weeksIn (year : Nat) : Nat :=
  let weekday := firstWeekday year
  if weekday = 3 ∨ (weekday = 2 ∧ isLeap year) then 53 else 52

/-- The day of a week, weekdays counted from 1 for Monday. -/
def ofWeek? (year week weekday : Nat) : Option Date :=
  if 1 ≤ year ∧ year ≤ 9999 ∧ 1 ≤ week ∧ week ≤ weeksIn year ∧ 1 ≤ weekday ∧ weekday ≤ 7 then
    let n := weekOneEve year + (week - 1) * 7 + weekday
    if n < 1 then none else ofOrdinal? n.toNat
  else none

/-- Year, month and day with dashes between. -/
def chars (d : Date) : List Char :=
  padded 4 d.year ++ '-' :: padded 2 d.month ++ '-' :: padded 2 d.day

def text (d : Date) : String := .ofList d.chars

def lt (a b : Date) : Bool := a.ordinal < b.ordinal

end Date
end RecordQuery.Calendar
