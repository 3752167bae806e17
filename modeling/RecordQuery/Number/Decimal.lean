import RecordQuery.Number.Binary64

/-!
# Decimal numbers

Decimal floating-point numbers that keep their digits: `± coefficient · 10^exponent`, so that
`7.5` and `7.50` are equal but not the same. Infinities and NaNs complete them.

* `text` writes a number; an exponent appears when it is positive or the number is below `10^-6`.
* `read?` reads one; every underscore is ignored.
* `compare?` orders two numbers by value without expanding their exponents.
-/

namespace RecordQuery.Number

inductive Decimal where
  | finite (negative : Bool) (coefficient : Nat) (exponent : Int)
  | infinity (negative : Bool)
  | nan (negative signaling : Bool) (payload : Nat)
deriving DecidableEq, Repr, Inhabited

namespace Decimal

/-- The greatest exponent of a leading digit. -/
def greatestExponent : Int := 999999999999999999

/-- The least exponent of a last digit. -/
def leastExponent : Int := -1999999999999999997

def isFinite : Decimal → Bool
  | .finite .. => true
  | _ => false

def isZero : Decimal → Bool
  | .finite _ 0 _ => true
  | _ => false

def ofInt (n : Int) : Decimal := .finite (n < 0) n.natAbs 0

/-- The exponent of the leading digit. -/
def leadingExponent (coefficient : Nat) (exponent : Int) : Int :=
  exponent + (natDigits coefficient).length - 1

/-- The number, if its exponent is in the range of decimals. -/
def checked (negative : Bool) (coefficient : Nat) (exponent : Int) : Option Decimal :=
  if exponent < leastExponent then none
  else if coefficient = 0 then
    if exponent ≤ greatestExponent then some (.finite negative coefficient exponent) else none
  else if leadingExponent coefficient exponent ≤ greatestExponent then
    some (.finite negative coefficient exponent)
  else none

/-- Digits with a point `point` places from their left edge, and no point at the right edge. -/
def positional (digits : List Char) (point : Int) : List Char :=
  if point ≤ 0 then '0' :: '.' :: List.replicate (-point).toNat '0' ++ digits
  else
    let fraction := digits.drop point.toNat
    if fraction.isEmpty then digits else digits.take point.toNat ++ '.' :: fraction

/-- One digit, a point and the others if there are any. -/
def mantissa : List Char → List Char
  | d :: e :: rest => d :: '.' :: e :: rest
  | ds => ds

def chars : Decimal → List Char
  | .finite negative coefficient exponent =>
    let digits := natDigits coefficient
    let lead := leadingExponent coefficient exponent
    Binary64.signed negative
      (if exponent ≤ 0 ∧ -6 ≤ lead then positional digits (lead + 1)
      else mantissa digits ++ 'E' :: (if lead < 0 then '-' else '+') :: natDigits lead.natAbs)
  | .infinity negative => Binary64.signed negative "Infinity".toList
  | .nan negative signaling payload =>
    Binary64.signed negative
      ((if signaling then "sNaN" else "NaN").toList ++
        if payload = 0 then [] else natDigits payload)

def text (x : Decimal) : String := .ofList (chars x)

/-- The digits after the word for a NaN, if the text is such a word. -/
def readNan (negative : Bool) (word : List Char) : Option Decimal :=
  let payload (cs : List Char) : Option Nat := if cs.isEmpty then some 0 else readNat cs
  if "nan".toList.isPrefixOf word then (payload (word.drop 3)).map (.nan negative false ·)
  else if "snan".toList.isPrefixOf word then (payload (word.drop 4)).map (.nan negative true ·)
  else none

/-- A decimal number, possibly between blanks. -/
def read? (cs : List Char) : Option Decimal :=
  let plain := (asciiDigits (Text.trimChars cs)).filter (· != '_')
  match readScientific plain with
  | some s => checked s.negative s.coefficient s.exponent
  | none =>
    let (negative, word) := splitSign plain
    let word := word.map Char.toLower
    if word = "inf".toList ∨ word = "infinity".toList then some (.infinity negative)
    else readNan negative word

/-- The double nearest to a decimal; a signaling NaN has none. -/
def toBinary64? : Decimal → Option Binary64
  | .finite negative coefficient exponent =>
    some (.ofScientific ⟨negative, coefficient, exponent⟩)
  | .infinity negative => some (.infinity negative)
  | .nan _ signaling _ => if signaling then none else some .nan

/-- The decimal that a double is, exactly. -/
def ofBinary64 : Binary64 → Decimal
  | .nan => .nan false false 0
  | .infinity negative => .infinity negative
  | .finite negative m e =>
    if m = 0 then .finite negative 0 0
    else if e < 0 then
      let twos := min (-e).toNat (m.log2 + 1)
      let rec reduce : Nat → Nat → Nat → Nat × Nat
        | 0, m, k => (m, k)
        | fuel + 1, m, k => if m % 2 = 0 ∧ 0 < k then reduce fuel (m / 2) (k - 1) else (m, k)
      let (m, k) := reduce twos m (-e).toNat
      .finite negative (m * Nat.pow 5 k) (-(k : Int))
    else .finite negative (m * Nat.pow 2 e.toNat) 0

/-- The coefficients of two numbers brought to one exponent. -/
def aligned (c₁ : Nat) (e₁ : Int) (c₂ : Nat) (e₂ : Int) : Nat × Nat :=
  if e₁ ≤ e₂ then (c₁, c₂ * Nat.pow 10 (e₂ - e₁).toNat) else (c₁ * Nat.pow 10 (e₁ - e₂).toNat, c₂)

/-- The order of the absolute values of two finite numbers. -/
def compareMagnitude (c₁ : Nat) (e₁ : Int) (c₂ : Nat) (e₂ : Int) : Ordering :=
  if c₁ = 0 ∨ c₂ = 0 then compare c₁ c₂
  else
    let l₁ := leadingExponent c₁ e₁
    let l₂ := leadingExponent c₂ e₂
    if l₁ ≠ l₂ then compare l₁ l₂
    else
      let (a, b) := aligned c₁ e₁ c₂ e₂
      compare a b

/-- The order of two numbers by value; a NaN has none. -/
def compare? : Decimal → Decimal → Option Ordering
  | .nan .., _ => none
  | _, .nan .. => none
  | .infinity a, .infinity b => some (if a = b then .eq else if a then .lt else .gt)
  | .infinity a, .finite .. => some (if a then .lt else .gt)
  | .finite .., .infinity b => some (if b then .gt else .lt)
  | .finite n₁ c₁ e₁, .finite n₂ c₂ e₂ =>
    if c₁ = 0 ∧ c₂ = 0 then some .eq
    else if c₁ = 0 then some (if n₂ then .gt else .lt)
    else if c₂ = 0 then some (if n₁ then .lt else .gt)
    else if n₁ ≠ n₂ then some (if n₁ then .lt else .gt)
    else
      let o := compareMagnitude c₁ e₁ c₂ e₂
      some (if n₁ then o.swap else o)

/-- Numerical equality: a NaN equals nothing. -/
def eqv (x y : Decimal) : Bool := compare? x y == some .eq

def isSignaling : Decimal → Bool
  | .nan _ signaling _ => signaling
  | _ => false

end Decimal
end RecordQuery.Number
