import RecordQuery.Text.Case
import RecordQuery.Pattern.Syntax

/-!
# Comparing without case

Two characters are the same without regard to case if their lower-case forms are, or if those
belong to one of the classes of letters that share a capital.

* `foldsTo` compares two characters, `foldsInto` a character with a range.
-/

namespace RecordQuery.Pattern

open RecordQuery.Text

/-- Lower-case letters that are forms of one capital. -/
def sharedCapitals : List (List Nat) := [
    [0x69, 0x131], [0x73, 0x17F], [0xB5, 0x3BC], [0x345, 0x3B9, 0x1FBE], [0x390, 0x1FD3],
    [0x3B0, 0x1FE3], [0x3B2, 0x3D0], [0x3B5, 0x3F5], [0x3B8, 0x3D1], [0x3BA, 0x3F0],
    [0x3C0, 0x3D6], [0x3C1, 0x3F1], [0x3C2, 0x3C3], [0x3C6, 0x3D5], [0x432, 0x1C80],
    [0x434, 0x1C81], [0x43E, 0x1C82], [0x441, 0x1C83], [0x442, 0x1C84, 0x1C85], [0x44A, 0x1C86],
    [0x463, 0x1C87], [0x1C88, 0xA64B], [0x1E61, 0x1E9B], [0xFB05, 0xFB06]]

/-- The lower-case form of a code point, of which only ASCII letters have one in ASCII mode. -/
def lowerCode (ascii : Bool) (n : Nat) : Nat :=
  if n < 0x80 then (Char.ofNat n).toLower.toNat
  else if ascii then n
  else if n = 0x130 then 0x69
  else if n.isValidChar then (lowerChar (Char.ofNat n)).toNat
  else n

/-- The lower-case letters that are the same as a lower-case one without regard to case. -/
def variants (ascii : Bool) (n : Nat) : List Nat :=
  if ascii then [n] else ((sharedCapitals.find? (·.contains n)).getD [n])

/-- The code points whose lower-case form is `n`. -/
def capitalsOf (ascii : Bool) (n : Nat) : List Nat :=
  let own := if lowerCode ascii n = n then [n] else []
  let latin := if 0x61 ≤ n ∧ n ≤ 0x7A then [n - 0x20] else []
  if ascii then own ++ latin
  else
    let others := capitalRuns.filterMap fun (first, last, step, image) =>
      if image ≤ n ∧ n ≤ image + (last - first) ∧ (n - image) % step = 0 then
        some (first + (n - image))
      else none
    own ++ latin ++ others ++ if n = 0x69 then [0x130] else []

def foldsTo (ascii : Bool) (a b : Nat) : Bool :=
  (variants ascii (lowerCode ascii a)).contains (lowerCode ascii b)

/-- Some character of the range is the same as `n` without regard to case. -/
def foldsInto (ascii : Bool) (low high n : Nat) : Bool :=
  (variants ascii (lowerCode ascii n)).any fun v =>
    (capitalsOf ascii v).any fun c => low ≤ c && c ≤ high

end RecordQuery.Pattern
