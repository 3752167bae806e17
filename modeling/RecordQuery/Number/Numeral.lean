import RecordQuery.Text.Blank
import RecordQuery.Text.Digit

/-!
# Numerals

Readers for the texts of numbers. Decimal digits of every script count. In integers and floating
numbers one underscore may stand between two digits.

* `readNat` reads plain digits, `natDigits` writes them; `readNat_natDigits` is the round trip.
* `readInt` reads a signed integer of at most `maxDigits` digits.
* `readScientific` reads digits with an optional point and exponent.
-/

namespace RecordQuery.Number

open RecordQuery.Text

/-- Integers are read only up to this many digits. -/
def maxDigits : Nat := 4300

/-- The value of a digit of ASCII. -/
def digitValue? (c : Char) : Option Nat :=
  if '0' ≤ c ∧ c ≤ '9' then some (c.toNat - '0'.toNat) else none

def isAsciiDigit (c : Char) : Bool := (digitValue? c).isSome

/-- The value of a run of digits, most significant first, continuing from `acc`. -/
def digitsFrom (acc : Nat) : List Char → Option Nat
  | [] => some acc
  | c :: cs => (digitValue? c).bind fun v => digitsFrom (10 * acc + v) cs

/-- The value of a nonempty run of ASCII digits. -/
def readNat (cs : List Char) : Option Nat :=
  if cs.isEmpty then none else digitsFrom 0 cs

/-- Digits of other scripts become those of ASCII. -/
def asciiDigits (cs : List Char) : List Char :=
  cs.map fun c => match decimalValue? c with
    | some v => Char.ofNat ('0'.toNat + v)
    | none => c

/-- Removes underscores, each of which has to stand between two digits; `prev` is the character
before `cs`. -/
def ungroupFrom (prev : Char) : List Char → Option (List Char)
  | [] => if prev = '_' then none else some []
  | c :: cs =>
    if c = '_' then
      if isAsciiDigit prev then ungroupFrom c cs else none
    else if prev = '_' ∧ !isAsciiDigit c then none
    else (ungroupFrom c cs).map (c :: ·)

def ungroup (cs : List Char) : Option (List Char) := ungroupFrom ' ' cs

/-- The blanks that may surround an integer: those of ASCII lines when the text is ASCII, and
every blank otherwise. -/
def stripAround (cs : List Char) : List Char :=
  if cs.all (·.toNat < 0x80) then
    stripChars (fun c => c == ' ' || (0x09 ≤ c.toNat && c.toNat ≤ 0x0D)) cs
  else trimChars cs

/-- A sign in front, if any, and the rest. -/
def splitSign : List Char → Bool × List Char
  | '-' :: cs => (true, cs)
  | '+' :: cs => (false, cs)
  | cs => (false, cs)

/-- A signed decimal integer. -/
def readInt (cs : List Char) : Option Int := do
  let plain ← ungroup (asciiDigits (stripAround cs))
  let (negative, digits) := splitSign plain
  if digits.length > maxDigits then none
  else
    let n ← readNat digits
    return if negative then -(n : Int) else n

/-- A number in positional or exponent form. -/
structure Scientific where
  negative : Bool
  coefficient : Nat
  exponent : Int
deriving DecidableEq, Repr

/-- The exponent part after the letter, if there is one. -/
def readExponent : List Char → Option Int
  | [] => some 0
  | c :: cs =>
    if c = 'e' ∨ c = 'E' then
      let (negative, digits) := splitSign cs
      (readNat digits).map fun (n : Nat) => if negative then -(n : Int) else n
    else none

/-- The digits after a point, if there is one, and the rest. -/
def fractionPart : List Char → List Char × List Char
  | '.' :: rest => rest.span isAsciiDigit
  | cs => ([], cs)

/-- Digits with at most one point and at least one digit, and an optional exponent. -/
def readScientific (cs : List Char) : Option Scientific := do
  let (negative, body) := splitSign cs
  let (whole, rest) := body.span isAsciiDigit
  let (fraction, rest) := fractionPart rest
  let coefficient ← readNat (whole ++ fraction)
  let exponent ← readExponent rest
  return ⟨negative, coefficient, exponent - fraction.length⟩

/-- The digit with the value `d`, which is less than ten. -/
def digitChar (d : Nat) : Char := Char.ofNat ('0'.toNat + d)

def natDigitsAux (fuel n : Nat) (acc : List Char) : List Char :=
  match fuel with
  | 0 => acc
  | fuel + 1 =>
    if n < 10 then digitChar n :: acc
    else natDigitsAux fuel (n / 10) (digitChar (n % 10) :: acc)

/-- The decimal digits of a number, without leading zeros. -/
def natDigits (n : Nat) : List Char := natDigitsAux (n + 1) n []

/-- The decimal text of an integer. -/
def intChars : Int → List Char
  | .ofNat n => natDigits n
  | .negSucc n => '-' :: natDigits (n + 1)

def intText (n : Int) : String := .ofList (intChars n)

/-- The digits of `n`, with zeros in front up to `width`. -/
def padded (width n : Nat) : List Char :=
  let digits := natDigits n
  List.replicate (width - digits.length) '0' ++ digits

theorem digitValue?_digitChar {d : Nat} (h : d < 10) : digitValue? (digitChar d) = some d := by
  have : ∀ d : Fin 10, digitValue? (digitChar d) = some d.val := by decide
  exact this ⟨d, h⟩

theorem digitsFrom_natDigitsAux {fuel n : Nat} (h : n < fuel) (acc : List Char) (start : Nat) :
    ∃ k, digitsFrom start (natDigitsAux fuel n acc) = digitsFrom (start * k + n) acc := by
  induction fuel generalizing n acc with
  | zero => omega
  | succ fuel ih =>
    unfold natDigitsAux
    by_cases hn : n < 10
    · refine ⟨10, ?_⟩
      simp [hn, digitsFrom, digitValue?_digitChar hn, Nat.mul_comm]
    · simp only [hn, if_false]
      obtain ⟨k, hk⟩ := ih (n := n / 10) (by omega) (digitChar (n % 10) :: acc)
      refine ⟨k * 10, ?_⟩
      have hm : n % 10 < 10 := Nat.mod_lt _ (by omega)
      rw [hk]
      simp only [digitsFrom, digitValue?_digitChar hm, Option.bind_some]
      congr 1
      have := Nat.div_add_mod n 10
      rw [← Nat.mul_assoc]
      omega

theorem natDigitsAux_ne_nil (fuel n : Nat) (acc : List Char) (h : 0 < fuel) :
    natDigitsAux fuel n acc ≠ [] := by
  induction fuel generalizing n acc with
  | zero => omega
  | succ fuel ih =>
    unfold natDigitsAux
    split
    · simp
    · cases fuel with
      | zero => simp [natDigitsAux]
      | succ fuel => exact ih _ _ (by omega)

theorem readNat_natDigits (n : Nat) : readNat (natDigits n) = some n := by
  have hne : natDigits n ≠ [] := natDigitsAux_ne_nil _ _ _ (by omega)
  obtain ⟨k, hk⟩ := digitsFrom_natDigitsAux (show n < n + 1 by omega) [] 0
  simp only [readNat, natDigits, List.isEmpty_iff] at *
  rw [if_neg hne, hk]
  simp [digitsFrom]

end RecordQuery.Number
