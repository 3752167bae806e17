import RecordQuery.Number.Numeral
import RecordQuery.Text.Blank
import RecordQuery.Text.Split

/-!
# Universally unique identifiers

Numbers of 128 bits, written as 32 hexadecimal digits with dashes in the usual places.

* `read?` accepts the digits with or without dashes, in braces, and after `urn:` and `uuid:`.
* `text` writes lower-case digits in groups of 8, 4, 4, 4 and 12; `hex` writes them without dashes.
-/

namespace RecordQuery

open RecordQuery.Number RecordQuery.Text

structure Uuid where
  value : Nat
  valid : value < 0x100000000000000000000000000000000 := by decide
deriving DecidableEq, Repr

namespace Uuid

instance : Inhabited Uuid := ⟨{ value := 0 }⟩

/-- The digit with a value below sixteen. -/
def hexDigit (d : Nat) : Char := if d < 10 then digitChar d else Char.ofNat ('a'.toNat + (d - 10))

def hexDigitValue? (c : Char) : Option Nat :=
  if '0' ≤ c ∧ c ≤ '9' then some (c.toNat - '0'.toNat)
  else if 'a' ≤ c ∧ c ≤ 'f' then some (c.toNat - 'a'.toNat + 10)
  else if 'A' ≤ c ∧ c ≤ 'F' then some (c.toNat - 'A'.toNat + 10)
  else none

/-- The last `count` hexadecimal digits of a number. -/
def hexDigits : (count n : Nat) → List Char
  | 0, _ => []
  | count + 1, n => hexDigits count (n / 16) ++ [hexDigit (n % 16)]

def hexFrom (acc : Nat) : List Char → Option Nat
  | [] => some acc
  | c :: cs => (hexDigitValue? c).bind fun v => hexFrom (16 * acc + v) cs

/-- Hexadecimal digits, among which an underscore may stand between two. -/
def hexGrouped (cs : List Char) : Option Nat :=
  let rec go (prev : Char) : List Char → Option (List Char)
    | [] => if prev = '_' then none else some []
    | c :: cs =>
      if c = '_' then (if prev = '_' then none else go c cs) else (go c cs).map (c :: ·)
  match cs with
  | [] => none
  | '_' :: _ => none
  | cs => (go ' ' cs).bind (hexFrom 0)

/-- The digits after the mark `0x`, if it is there; one underscore may follow it. -/
def afterMark : List Char → List Char
  | '0' :: x :: '_' :: rest => if x = 'x' ∨ x = 'X' then rest else '0' :: x :: '_' :: rest
  | '0' :: x :: rest => if x = 'x' ∨ x = 'X' then rest else '0' :: x :: rest
  | cs => cs

/-- A hexadecimal numeral: blanks around it, a sign and the mark `0x` are admitted. -/
def readHex (cs : List Char) : Option Int :=
  let (negative, body) := splitSign (asciiDigits (stripAround cs))
  (hexGrouped (afterMark body)).map fun (n : Nat) => if negative then -(n : Int) else n

def ofNat? (n : Nat) : Option Uuid :=
  if h : n < 0x100000000000000000000000000000000 then some ⟨n, h⟩ else none

def read? (cs : List Char) : Option Uuid :=
  let bare := replaceAll "uuid:".toList [] (replaceAll "urn:".toList [] cs)
  let digits := (stripChars (fun c => c == '\x7b' || c == '\x7d') bare).filter (· != '-')
  if digits.length ≠ 32 then none
  else (readHex digits).bind fun n => if n < 0 then none else ofNat? n.toNat

def hex (u : Uuid) : List Char := hexDigits 32 u.value

def chars (u : Uuid) : List Char :=
  let h := u.hex
  h.take 8 ++ '-' :: (h.drop 8).take 4 ++ '-' :: (h.drop 12).take 4 ++ '-' :: (h.drop 16).take 4 ++
    '-' :: h.drop 20

def text (u : Uuid) : String := .ofList u.chars

end Uuid
end RecordQuery
