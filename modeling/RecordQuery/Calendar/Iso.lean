import RecordQuery.Calendar.DateTime

/-!
# Reading ISO dates and times

A day is written as year, month and day or as year, week and weekday, with dashes or without; a
time with colons or without, with any number of decimals of a second, of which six count. Between
the two stands one character, whatever it is. An offset follows the time, or the letter `Z`.

* `readDate?` reads a day, `readDateTime?` a day with or without a time.
-/

namespace RecordQuery.Calendar.Iso

open RecordQuery.Number RecordQuery.Calendar

/-- A number of exactly `width` ASCII digits. -/
def fixedDigits (width : Nat) (cs : List Char) : Option (Nat × List Char) :=
  if cs.length < width then none
  else (digitsFrom 0 (cs.take width)).map (·, cs.drop width)

/-- The rest after a dash, where dashes are used. -/
def skipDash (dashed : Bool) (cs : List Char) : Option (List Char) :=
  if dashed then
    match cs with
    | '-' :: rest => some rest
    | _ => none
  else some cs

/-- A day in one of its forms. What follows it does not count. -/
def dayOf (cs : List Char) : Option Date := do
  let (year, rest) ← fixedDigits 4 cs
  let dashed := rest.head? = some '-'
  let rest := if dashed then rest.drop 1 else rest
  match rest with
  | 'W' :: rest =>
    let (week, rest) ← fixedDigits 2 rest
    if rest.isEmpty then Date.ofWeek? year week 1
    else
      let (weekday, _) ← fixedDigits 1 (← skipDash dashed rest)
      Date.ofWeek? year week weekday
  | rest =>
    let (month, rest) ← fixedDigits 2 rest
    let (day, _) ← fixedDigits 2 (← skipDash dashed rest)
    Date.ofParts? year month day

/-- The length of a text in bytes. -/
def size (cs : List Char) : Nat := cs.foldr (fun c n => c.utf8Size + n) 0

def readDate? (cs : List Char) : Option Date :=
  if size cs ∈ [7, 8, 10] then dayOf cs else none

/-- The place of the character between the day and the time. -/
def separatorPlace (cs : List Char) : Nat :=
  let n := size cs
  let at? (k : Nat) : Option Char := cs[k]?
  let digitAt (k : Nat) : Bool := ((at? k).map isAsciiDigit).getD false
  if n = 7 then 7
  else if at? 4 = some '-' then
    if at? 5 = some 'W' then
      if n < 8 then n
      else if n > 8 ∧ at? 8 = some '-' then
        if n = 9 then n
        else if n > 10 ∧ digitAt 10 then 8
        else 10
      else 8
    else 10
  else if at? 4 = some 'W' then
    let run := ((cs.drop 7).takeWhile isAsciiDigit).length
    if 7 + run < 9 then 7 + run else if (7 + run) % 2 = 0 then 7 else 8
  else 8

/-- The readings of a clock, and whether characters are left over. -/
structure Clock where
  hour : Nat
  minute : Nat := 0
  second : Nat := 0
  micro : Nat := 0
  leftover : Bool := false

/-- What follows two digits of a clock. -/
inductive Next where
  | done (leftover : Bool)
  | more (rest : List Char)
  | fraction (rest : List Char)
  | bad

/-- Decides what follows two digits: a colon where colons are used, a decimal mark, or at once the
next digits. One last character may be left over. -/
def next (colons : Bool) (cs : List Char) : Next :=
  match cs with
  | [] => .done false
  | [c] => if c.toNat < 0x80 then .done true else .bad
  | c :: rest =>
    if colons && c == ':' then .more rest
    else if c == '.' || c == ',' then .fraction rest
    else if colons then .bad
    else .more cs

/-- The decimals of a second: six of them count, further digits are passed over. -/
def fractionOf (clock : Clock) (cs : List Char) : Option Clock := do
  let six := cs.take 6
  let micro ← digitsFrom 0 (six ++ if six.all isAsciiDigit then
    List.replicate (6 - six.length) '0' else [])
  let rest := (cs.drop 6).dropWhile isAsciiDigit
  return { clock with micro, leftover := !rest.isEmpty }

/-- Hours, then minutes and seconds as far as they are given, and the decimals of a second. -/
def clockOf (cs : List Char) : Option Clock := do
  let (hour, rest) ← fixedDigits 2 cs
  let colons := rest.head? = some ':'
  match next colons rest with
  | .done leftover => return { hour, leftover }
  | .fraction rest => fractionOf { hour } rest
  | .bad => none
  | .more rest =>
    let (minute, rest) ← fixedDigits 2 rest
    match next colons rest with
    | .done leftover => return { hour, minute, leftover }
    | .fraction rest => fractionOf { hour, minute } rest
    | .bad => none
    | .more rest =>
      let (second, rest) ← fixedDigits 2 rest
      match next colons rest with
      | .done leftover => return { hour, minute, second, leftover }
      | .fraction rest | .more rest => fractionOf { hour, minute, second } rest
      | .bad => none

/-- The offset after its sign. Less than a second counts as none. -/
def offsetOf (negative : Bool) (cs : List Char) : Option Offset := do
  let clock ← clockOf cs
  if clock.leftover then none
  let seconds := (clock.hour * 60 + clock.minute) * 60 + clock.second
  if seconds = 0 then return .utc
  let n : Int := seconds * microsPerSecond + clock.micro
  Offset.ofMicros? (if negative then -n else n)

/-- A time of day with its offset, if it has one. Only before an offset may something be left
over of the time. -/
def timeOf (cs : List Char) : Option (TimeOfDay × Option Offset) := do
  let before := cs.takeWhile fun c => c ≠ '+' ∧ c ≠ '-' ∧ c ≠ 'Z'
  let clock ← clockOf before
  let offset ← match cs.drop before.length with
    | [] => if clock.leftover then none else some none
    | 'Z' :: after => if after.isEmpty then some (some Offset.utc) else none
    | sign :: after => (offsetOf (sign = '-') after).map some
  let time ← TimeOfDay.ofParts? clock.hour clock.minute clock.second clock.micro
  return (time, offset)

/-- A day, and after one character of any kind a time. -/
def readDateTime? (cs : List Char) : Option DateTime := do
  if size cs < 7 then none
  let place := separatorPlace cs
  let date ← dayOf (cs.take place)
  match cs.drop place with
  | [] => return { date }
  | _ :: clock =>
    let (time, offset) ← timeOf clock
    return { date, time, offset }

end RecordQuery.Calendar.Iso
