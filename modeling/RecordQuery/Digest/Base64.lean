import RecordQuery.Digest.Bytes

/-!
# Base64 for addresses

Bytes as letters, digits, `-` and `_`, six bits each, without padding.

* `encode` writes bytes. `decode?` is lenient: it also knows `+` and `/`, passes over foreign
  characters and ends at sufficient padding.
-/

namespace RecordQuery.Digest.Base64

def letter (n : Nat) : Char :=
  if n < 26 then Char.ofNat (65 + n)
  else if n < 52 then Char.ofNat (97 + (n - 26))
  else if n < 62 then Char.ofNat (48 + (n - 52))
  else if n = 62 then '-' else '_'

def letterValue? (c : Char) : Option Nat :=
  if 'A' ≤ c ∧ c ≤ 'Z' then some (c.toNat - 65)
  else if 'a' ≤ c ∧ c ≤ 'z' then some (c.toNat - 97 + 26)
  else if '0' ≤ c ∧ c ≤ '9' then some (c.toNat - 48 + 52)
  else if c = '-' ∨ c = '+' then some 62
  else if c = '_' ∨ c = '/' then some 63
  else none

def encode : Bytes → List Char
  | a :: b :: c :: rest =>
    letter (a.toNat / 4) :: letter (a.toNat % 4 * 16 + b.toNat / 16) ::
      letter (b.toNat % 16 * 4 + c.toNat / 64) :: letter (c.toNat % 64) :: encode rest
  | [a, b] =>
    [letter (a.toNat / 4), letter (a.toNat % 4 * 16 + b.toNat / 16), letter (b.toNat % 16 * 4)]
  | [a] => [letter (a.toNat / 4), letter (a.toNat % 4 * 16)]
  | [] => []

/-- Reads on with `place` letters of a group of four seen, `held` the bits they left over and
`pads` the padding marks since the last letter. -/
def decodeFrom (place held pads : Nat) : List Char → Option Bytes
  | [] => if place = 0 then some [] else none
  | c :: cs =>
    if c = '=' then
      if 2 ≤ place then
        if 4 ≤ place + pads + 1 then some [] else decodeFrom place held (pads + 1) cs
      else decodeFrom place held pads cs
    else
      match letterValue? c with
      | none => decodeFrom place held pads cs
      | some v =>
        match place with
        | 0 => decodeFrom 1 v 0 cs
        | 1 => (decodeFrom 2 (v % 16) 0 cs).map ((held * 4 + v / 16).toUInt8 :: ·)
        | 2 => (decodeFrom 3 (v % 4) 0 cs).map ((held * 16 + v / 4).toUInt8 :: ·)
        | _ => (decodeFrom 0 0 0 cs).map ((held * 64 + v).toUInt8 :: ·)

/-- Reads letters, completed by padding to a multiple of four characters. -/
def decode? (cs : List Char) : Option Bytes :=
  let bytes := (utf8Encode cs).length
  let missing := (4 - bytes % 4) % 4
  decodeFrom 0 0 0 (cs ++ List.replicate missing '=')

end RecordQuery.Digest.Base64
