import RecordQuery.Number.Numeral

/-!
# Double-precision numbers

Binary floating-point numbers of 64 bits in exact form: a finite one is `± mantissa · 2^exponent`
with a mantissa below `2^53`. Arithmetic is done on integers, and every result is the nearest
number, ties to the even mantissa.

* `ofRatio` rounds a quotient; `ofScientific` and `ofInt?` go through it.
* `text` writes the fewest digits that read back, positional between `10^-4` and `10^16`.
* `fixed` writes a number of decimal places, correctly rounded.
-/

namespace RecordQuery.Number

/-- A double. The mantissa is at least `2^52` unless the exponent is the least one, `-1074`. -/
inductive Binary64 where
  | nan
  | infinity (negative : Bool)
  | finite (negative : Bool) (mantissa : Nat) (exponent : Int)
deriving DecidableEq, Repr, Inhabited

/-- The quotient of two naturals, rounded to the nearest integer, ties to even. -/
def roundDiv (num den : Nat) : Nat :=
  let q := num / den
  let twice := 2 * (num % den)
  if twice < den then q
  else if den < twice then q + 1
  else if q % 2 = 0 then q else q + 1

namespace Binary64

def leastExponent : Int := -1074
def greatestExponent : Int := 971

def zero : Binary64 := .finite false 0 leastExponent

/-- `num · 2^(-e) / den` rounded to an integer. -/
def scaledQuotient (num den : Nat) (e : Int) : Nat :=
  if e < 0 then roundDiv (num * Nat.pow 2 (-e).toNat) den
  else roundDiv num (den * Nat.pow 2 e.toNat)

/-- `2^k ≤ num / den`. -/
def powLeRatio (num den : Nat) (k : Int) : Bool :=
  if k < 0 then den ≤ num * Nat.pow 2 (-k).toNat else den * Nat.pow 2 k.toNat ≤ num

/-- The exponent of the leading binary digit of the positive number `num / den`. -/
def leadingBit (num den : Nat) : Int :=
  let k : Int := (Nat.log2 num : Int) - Nat.log2 den
  if powLeRatio num den k then k else k - 1

/-- The double nearest to `± num / den`, where `den` is positive. -/
def ofRatio (negative : Bool) (num den : Nat) : Binary64 :=
  if num = 0 then .finite negative 0 leastExponent
  else
    let e := max (leadingBit num den - 52) leastExponent
    let m := scaledQuotient num den e
    let (m, e) := if m = 0x20000000000000 then (0x10000000000000, e + 1) else (m, e)
    if e > greatestExponent then .infinity negative else .finite negative m e

/-- The double nearest to `± coefficient · 10^exponent`. -/
def ofScientific (s : Scientific) : Binary64 :=
  if s.coefficient = 0 then .finite s.negative 0 leastExponent
  else
    let magnitude : Int := s.exponent + (Nat.log2 s.coefficient : Int) * 30103 / 100000
    if magnitude > 400 then .infinity s.negative
    else if magnitude < -400 then .finite s.negative 0 leastExponent
    else if s.exponent < 0 then ofRatio s.negative s.coefficient (Nat.pow 10 (-s.exponent).toNat)
    else ofRatio s.negative (s.coefficient * Nat.pow 10 s.exponent.toNat) 1

/-- The double nearest to an integer, unless the integer is too large for every one. -/
def ofInt? (n : Int) : Option Binary64 :=
  match ofRatio (n < 0) n.natAbs 1 with
  | .infinity _ => none
  | x => some x

/-- The nearest double to the quotient of two integers, unless it is too large; `den` is not
zero. -/
def ofQuotient? (num den : Int) : Option Binary64 :=
  match ofRatio ((num < 0) != (den < 0)) num.natAbs den.natAbs with
  | .infinity _ => none
  | x => some x

/-- Numerator and denominator of the absolute value of a finite number. -/
def ratio (mantissa : Nat) (exponent : Int) : Nat × Nat :=
  if exponent < 0 then (mantissa, Nat.pow 2 (-exponent).toNat)
  else (mantissa * Nat.pow 2 exponent.toNat, 1)

def isFinite : Binary64 → Bool
  | .finite .. => true
  | _ => false

def isNan : Binary64 → Bool
  | .nan => true
  | _ => false

def isZero : Binary64 → Bool
  | .finite _ 0 _ => true
  | _ => false

/-- The integer that the number is, if it is one. -/
def toInt? : Binary64 → Option Int
  | .finite negative m e =>
    let (num, den) := ratio m e
    if num % den = 0 then some (if negative then -(num / den : Int) else num / den) else none
  | _ => none

/-- The integer part, toward zero. -/
def truncate? : Binary64 → Option Int
  | .finite negative m e =>
    let (num, den) := ratio m e
    some (if negative then -(num / den : Nat) else (num / den : Nat))
  | _ => none

/-- The least integer that is not below the number. -/
def ceil? : Binary64 → Option Int
  | .finite negative m e =>
    let (num, den) := ratio m e
    some (if negative then -(num / den : Nat) else ((num + den - 1) / den : Nat))
  | _ => none

/-- The numerator, with its sign, and the denominator of a finite number. -/
def signedRatio (negative : Bool) (m : Nat) (e : Int) : Int × Nat :=
  let (num, den) := ratio m e
  (if negative then -(num : Int) else num, den)

/-- The order of two numbers; nothing compares with a NaN. -/
def compare? : Binary64 → Binary64 → Option Ordering
  | .nan, _ => none
  | _, .nan => none
  | .infinity a, .infinity b =>
    some (if a = b then .eq else if a then .lt else .gt)
  | .infinity a, .finite .. => some (if a then .lt else .gt)
  | .finite .., .infinity b => some (if b then .gt else .lt)
  | .finite n₁ m₁ e₁, .finite n₂ m₂ e₂ =>
    let (a, b) := signedRatio n₁ m₁ e₁
    let (c, d) := signedRatio n₂ m₂ e₂
    some (compare (a * d) (c * b))

/-- The order of a double and an integer, compared exactly. -/
def compareInt? : Binary64 → Int → Option Ordering
  | .nan, _ => none
  | .infinity a, _ => some (if a then .lt else .gt)
  | .finite neg m e, n =>
    let (a, b) := signedRatio neg m e
    some (compare a (n * b))

/-- Numerical equality: the zeros are equal, a NaN equals nothing. -/
def eqv (x y : Binary64) : Bool := compare? x y == some .eq

def lt (x y : Binary64) : Bool := compare? x y == some .lt

/-- `10^k ≤ num / den`. -/
def tenPowLeRatio (num den : Nat) (k : Int) : Bool :=
  if k < 0 then den ≤ num * Nat.pow 10 (-k).toNat else den * Nat.pow 10 k.toNat ≤ num

/-- The exponent of the leading decimal digit of the positive number `num / den`. -/
def leadingDigit (num den : Nat) : Int :=
  let guess : Int := leadingBit num den * 30103 / 100000
  if tenPowLeRatio num den (guess + 1) then guess + 1
  else if tenPowLeRatio num den guess then guess
  else guess - 1

/-- `⌊num / den / 10^k⌋` with the remainder and the denominator that belongs to it. -/
def gridFloor (num den : Nat) (k : Int) : Nat × Nat × Nat :=
  let (n, d) :=
    if k < 0 then (num * Nat.pow 10 (-k).toNat, den) else (num, den * Nat.pow 10 k.toNat)
  (n / d, n % d, d)

/-- The digits of the shortest decimal that reads back as `m · 2^e`, and the exponent of the last
one: the first grid of `1, 2, …` digits on which a neighbour of the number reads back, and there
the nearer neighbour. -/
def shortestOn (m : Nat) (e : Int) (lead : Int) : (fuel digits : Nat) → Nat × Int
  | 0, digits => ((gridFloor (ratio m e).1 (ratio m e).2 (lead + 1 - digits)).1, lead + 1 - digits)
  | fuel + 1, digits =>
    let k := lead + 1 - digits
    let (below, rest, den) := gridFloor (ratio m e).1 (ratio m e).2 k
    let readsBack (d : Nat) := ofScientific ⟨false, d, k⟩ == .finite false m e
    let low := readsBack below
    let high := readsBack (below + 1)
    if low ∧ high then
      if 2 * rest < den then (below, k)
      else if den < 2 * rest then (below + 1, k)
      else if below % 2 = 0 then (below, k) else (below + 1, k)
    else if low then (below, k)
    else if high then (below + 1, k)
    else shortestOn m e lead fuel (digits + 1)

/-- A positive number without the trailing zeros of its decimal form. -/
def dropZeros : Nat → Nat → Int → Nat × Int
  | 0, d, k => (d, k)
  | fuel + 1, d, k => if d % 10 = 0 ∧ d ≠ 0 then dropZeros fuel (d / 10) (k + 1) else (d, k)

def shortest (m : Nat) (e : Int) : Nat × Int :=
  let (num, den) := ratio m e
  let (d, k) := shortestOn m e (leadingDigit num den) 20 1
  dropZeros 400 d k

/-- Digits with a point `point` places after the first digit's left edge. -/
def positional (digits : List Char) (point : Int) : List Char :=
  if point ≤ 0 then '0' :: '.' :: List.replicate (-point).toNat '0' ++ digits
  else
    let whole := digits.take point.toNat
    let fraction := digits.drop point.toNat
    whole ++ List.replicate (point.toNat - whole.length) '0' ++
      '.' :: (if fraction.isEmpty then ['0'] else fraction)

/-- The text of an exponent, with its sign and at least two digits. -/
def exponentChars (exponent : Int) : List Char :=
  (if exponent < 0 then '-' else '+') :: padded 2 exponent.natAbs

/-- One digit, a point and the others if there are any, and the exponent. -/
def exponential (digits : List Char) (exponent : Int) : List Char :=
  let mantissa := match digits with
    | [d] => [d]
    | d :: rest => d :: '.' :: rest
    | [] => []
  mantissa ++ 'e' :: exponentChars exponent

def signed (negative : Bool) (cs : List Char) : List Char := if negative then '-' :: cs else cs

/-- The fewest digits that read back; positional from `10^-4` up to `10^16`, with a point in any
case, and with an exponent outside. -/
def chars : Binary64 → List Char
  | .nan => "nan".toList
  | .infinity negative => signed negative "inf".toList
  | .finite negative m e =>
    if m = 0 then signed negative "0.0".toList
    else
      let (d, k) := shortest m e
      let digits := natDigits d
      let lead : Int := k + digits.length - 1
      signed negative
        (if lead < -4 ∨ lead ≥ 16 then exponential digits lead else positional digits (lead + 1))

def text (x : Binary64) : String := .ofList (chars x)

/-- An integer read as a multiple of `10^-places`, written with that many places. -/
def placesChars (places n : Nat) : List Char :=
  if places = 0 then natDigits n
  else
    let digits := padded (places + 1) n
    digits.take (digits.length - places) ++ '.' :: digits.drop (digits.length - places)

/-- The nearest multiple of `10^-places`, as a sign and a count. -/
def toPlaces? (places : Nat) : Binary64 → Option (Bool × Nat)
  | .finite negative m e =>
    let (num, den) := ratio m e
    some (negative, roundDiv (num * Nat.pow 10 places) den)
  | _ => none

/-- The text with `digits` significant digits at most, without trailing zeros but with a point:
the form in which a number is compared with a text column. -/
def general (digits : Nat) : Binary64 → List Char
  | .nan => []
  | .infinity negative => signed negative "Inf".toList
  | .finite negative m e =>
    if m = 0 then "0.0".toList
    else
      let (num, den) := ratio m e
      let lead := leadingDigit num den
      let k := lead + 1 - digits
      let d :=
        if k < 0 then roundDiv (num * Nat.pow 10 (-k).toNat) den
        else roundDiv num (den * Nat.pow 10 k.toNat)
      let (d, k) := dropZeros 400 d k
      let ds := natDigits d
      let lead : Int := k + ds.length - 1
      signed negative
        (if lead < -4 ∨ lead ≥ digits then
          let mantissa := match ds with
            | [c] => [c, '.', '0']
            | c :: rest => c :: '.' :: rest
            | [] => []
          mantissa ++ 'e' :: exponentChars lead
        else positional ds (lead + 1))

/-- A floating number: a decimal, or one of the words for infinity and NaN, in any case. -/
def read? (cs : List Char) : Option Binary64 := do
  let plain ← ungroup (asciiDigits cs)
  match readScientific plain with
  | some s => some (ofScientific s)
  | none =>
    let (negative, word) := splitSign plain
    let word := word.map Char.toLower
    if word = "inf".toList ∨ word = "infinity".toList then some (.infinity negative)
    else if word = "nan".toList then some .nan
    else none

end Binary64
end RecordQuery.Number
