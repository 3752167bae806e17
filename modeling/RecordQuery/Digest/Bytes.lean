import RecordQuery.Uuid

/-!
# Texts as bytes

The UTF-8 form of a text and its reading, and the hexadecimal form of bytes.

* `utf8Encode` writes a text, `utf8Decode?` reads one strictly; `utf8Replace` reads any bytes, with
  the replacement character in the place of what is malformed.
-/

namespace RecordQuery.Digest

abbrev Bytes := List UInt8

/-- The UTF-8 form of a character. -/
def charBytes (c : Char) : Bytes :=
  let n := c.toNat
  if n < 0x80 then [n.toUInt8]
  else if n < 0x800 then [(0xC0 + n / 64).toUInt8, (0x80 + n % 64).toUInt8]
  else if n < 0x10000 then
    [(0xE0 + n / 4096).toUInt8, (0x80 + n / 64 % 64).toUInt8, (0x80 + n % 64).toUInt8]
  else
    [(0xF0 + n / 262144).toUInt8, (0x80 + n / 4096 % 64).toUInt8, (0x80 + n / 64 % 64).toUInt8,
      (0x80 + n % 64).toUInt8]

def utf8Encode (cs : List Char) : Bytes := cs.flatMap charBytes

def isContinuation (b : UInt8) : Bool := 0x80 ≤ b && b < 0xC0

/-- What a leading byte announces: how many bytes follow, its own share of the code point, and the
range of the byte after it. -/
def leading? (b : UInt8) : Option (Nat × Nat × UInt8 × UInt8) :=
  let n := b.toNat
  if 0xC2 ≤ n ∧ n ≤ 0xDF then some (1, n - 0xC0, 0x80, 0xBF)
  else if n = 0xE0 then some (2, 0, 0xA0, 0xBF)
  else if n = 0xED then some (2, 0xD, 0x80, 0x9F)
  else if 0xE1 ≤ n ∧ n ≤ 0xEF then some (2, n - 0xE0, 0x80, 0xBF)
  else if n = 0xF0 then some (3, 0, 0x90, 0xBF)
  else if n = 0xF4 then some (3, 4, 0x80, 0x8F)
  else if 0xF1 ≤ n ∧ n ≤ 0xF3 then some (3, n - 0xF0, 0x80, 0xBF)
  else none

/-- Reads up to `count` continuation bytes, the first one within a range: the code point if all
are there, and how many were. -/
def continued : (count point : Nat) → (low high : UInt8) → Bytes → Option Nat × Nat
  | 0, point, _, _, _ => (some point, 0)
  | count + 1, point, low, high, bs =>
    match bs with
    | b :: rest =>
      if low ≤ b ∧ b ≤ high then
        let (r, n) := continued count (point * 64 + (b.toNat - 0x80)) 0x80 0xBF rest
        (r, n + 1)
      else (none, 0)
    | [] => (none, 0)

/-- One character and the number of bytes it takes; malformed bytes give none and take the
longest start of a character. -/
def decodeOne (b : UInt8) (rest : Bytes) : Option Char × Nat :=
  if b < 0x80 then (some (Char.ofNat b.toNat), 1)
  else
    match leading? b with
    | none => (none, 1)
    | some (count, share, low, high) =>
      let (r, n) := continued count share low high rest
      (r.map Char.ofNat, n + 1)

def decodeWith (bad : Option Char) : (fuel : Nat) → Bytes → Option (List Char)
  | _, [] => some []
  | 0, _ => none
  | fuel + 1, b :: rest =>
    let (c, n) := decodeOne b rest
    match c <|> bad with
    | some c => (decodeWith bad fuel (rest.drop (n - 1))).map (c :: ·)
    | none => none

/-- Reads well-formed bytes. -/
def utf8Decode? (bs : Bytes) : Option (List Char) := decodeWith none bs.length bs

/-- Reads any bytes, with the replacement character for each malformed part. -/
def utf8Replace (bs : Bytes) : List Char := (decodeWith (some '\uFFFD') bs.length bs).getD []

/-- Two lower-case digits for each byte. -/
def hexChars (bs : Bytes) : List Char := bs.flatMap fun b => Uuid.hexDigits 2 b.toNat

end RecordQuery.Digest
