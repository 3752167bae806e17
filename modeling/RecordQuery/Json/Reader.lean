import RecordQuery.Fault
import RecordQuery.Value.Basic

/-!
# Reading JSON

A reader of JSON texts. Numbers without point and exponent are integers of any size up to
`maxDigits`, the others doubles; the words `NaN`, `Infinity` and `-Infinity` are read as doubles
too. A repeated key keeps its first place and its last value. Control characters may not stand in
a string; half of a surrogate pair becomes the replacement character. Every list and every mapping
takes a call of the reader, of which so many can be open in each other.

* `Json.load` reads one value with nothing but blanks around it, or says why there is none.
* `Json.readWith` does so with numbers of another kind.
-/

namespace RecordQuery.Json

open RecordQuery.Number

/-- Why there is no value in a text. -/
inductive ReadError where
  | malformed
  /-- More lists and mappings in each other than there is room for. -/
  | tooDeep
deriving DecidableEq, Repr

/-- What a text has to have in a place. -/
def wellFormed {α : Type} : Option α → Except ReadError α
  | some a => .ok a
  | none => .error .malformed

theorem wellFormed_eq_ok {α : Type} {x : Option α} {a : α} : wellFormed x = .ok a ↔ x = some a := by
  cases x <;> simp [wellFormed]

def isSpace (c : Char) : Bool := c == ' ' || c == '\t' || c == '\n' || c == '\r'

def skipSpace (cs : List Char) : List Char := cs.dropWhile isSpace

/-- The rest after a given word. -/
def afterWord? (word cs : List Char) : Option (List Char) :=
  if word.isPrefixOf cs then some (cs.drop word.length) else none

/-- Four hexadecimal digits. -/
def hexUnit? (cs : List Char) : Option (Nat × List Char) :=
  if cs.length < 4 then none
  else (Uuid.hexFrom 0 (cs.take 4)).map (·, cs.drop 4)

def isHighHalf (n : Nat) : Bool := 0xD800 ≤ n && n ≤ 0xDBFF
def isLowHalf (n : Nat) : Bool := 0xDC00 ≤ n && n ≤ 0xDFFF

/-- The character of a unit; half of a pair has none of its own. -/
def unitChar (n : Nat) : Char :=
  if isHighHalf n || isLowHalf n then '\uFFFD' else Char.ofNat n

/-- The character after `\u`, two units making one if they are a pair. -/
def unicodeEscape? (cs : List Char) : Option (Char × List Char) := do
  let (n, rest) ← hexUnit? cs
  if isHighHalf n then
    match rest with
    | '\\' :: 'u' :: more =>
      match hexUnit? more with
      | some (low, after) =>
        if isLowHalf low then
          return (Char.ofNat (0x10000 + (n - 0xD800) * 0x400 + (low - 0xDC00)), after)
        else return (unitChar n, rest)
      | none => return (unitChar n, rest)
    | _ => return (unitChar n, rest)
  else return (unitChar n, rest)

/-- The character that a letter after a backslash stands for. -/
def simpleEscape? : Char → Option Char
  | '"' => some '"'
  | '\\' => some '\\'
  | '/' => some '/'
  | 'b' => some '\x08'
  | 'f' => some '\x0c'
  | 'n' => some '\n'
  | 'r' => some '\r'
  | 't' => some '\t'
  | _ => none

/-- The characters of a string up to its closing quote. -/
def stringBody : (fuel : Nat) → List Char → Option (List Char × List Char)
  | 0, _ => none
  | fuel + 1, cs =>
    match cs with
    | [] => none
    | '"' :: rest => some ([], rest)
    | '\\' :: 'u' :: rest => do
      let (c, rest) ← unicodeEscape? rest
      let (s, rest) ← stringBody fuel rest
      return (c :: s, rest)
    | '\\' :: e :: rest => do
      let c ← simpleEscape? e
      let (s, rest) ← stringBody fuel rest
      return (c :: s, rest)
    | c :: rest =>
      if c.toNat < 0x20 ∨ c = '\\' then none
      else do
        let (s, rest) ← stringBody fuel rest
        return (c :: s, rest)

/-- The decimals after a point, if there is at least one. -/
def decimals (cs : List Char) : List Char × List Char :=
  match cs with
  | '.' :: rest =>
    let (ds, after) := rest.span isAsciiDigit
    if ds.isEmpty then ([], cs) else (ds, after)
  | _ => ([], cs)

/-- The exponent, if there is a whole one. -/
def exponentPart (cs : List Char) : Option Int × List Char :=
  match cs with
  | c :: rest =>
    if c = 'e' ∨ c = 'E' then
      let (negative, body) := splitSign rest
      let (ds, after) := body.span isAsciiDigit
      match readNat ds with
      | some n => (some (if negative then -(n : Int) else n), after)
      | none => (none, cs)
    else (none, cs)
  | [] => (none, cs)

/-- The sign of a number, if it is negative, and the rest. -/
def signPart : List Char → Bool × List Char
  | '-' :: rest => (true, rest)
  | cs => (false, cs)

/-- The digits before the point. A zero in front stands alone. -/
def wholePart : List Char → List Char × List Char
  | '0' :: rest => (['0'], rest)
  | cs => cs.span isAsciiDigit

/-- The number with these parts, if there is a digit before the point. -/
def ofParts? (negative : Bool) (whole fraction : List Char) (exponent : Option Int) :
    Option Value :=
  if whole.isEmpty then none
  else if fraction.isEmpty ∧ exponent.isNone then
    if whole.length > maxDigits then none
    else (readNat whole).map fun (n : Nat) => .int (if negative then -(n : Int) else n)
  else (readNat (whole ++ fraction)).map fun n =>
    .float (.ofScientific ⟨negative, n, exponent.getD 0 - fraction.length⟩)

def number? (cs : List Char) : Option (Value × List Char) :=
  let (negative, body) := signPart cs
  let (whole, rest) := wholePart body
  let (fraction, rest) := decimals rest
  let (exponent, rest) := exponentPart rest
  (ofParts? negative whole fraction exponent).map (·, rest)

/-- A number as the text that is written. -/
def writtenNumber? (cs : List Char) : Option (Value × List Char) :=
  let (_, body) := signPart cs
  let (whole, rest) := wholePart body
  let (_, rest) := decimals rest
  let (_, rest) := exponentPart rest
  if whole.isEmpty then none else some (.text (.ofList (cs.take (cs.length - rest.length))), rest)

/-- The words of the format and the values that they stand for. -/
def words : List (List Char × Value) :=
  [("null".toList, .null), ("true".toList, .bool true), ("false".toList, .bool false),
    ("NaN".toList, .float .nan), ("Infinity".toList, .float (.infinity false)),
    ("-Infinity".toList, .float (.infinity true))]

def word? (cs : List Char) : Option (Value × List Char) :=
  words.findSome? fun (w, v) => (afterWord? w cs).map (v, ·)

section Collections

variable (number : List Char → Option (Value × List Char))

mutual

/-- A value, with room for so many lists and mappings in each other. -/
def value : (room fuel : Nat) → List Char → Except ReadError (Value × List Char)
  | _, 0, _ => .error .malformed
  | room, fuel + 1, cs =>
    match cs with
    | '"' :: rest => (wellFormed (stringBody (rest.length + 1) rest)).map fun (s, rest) =>
        (.text (.ofList s), rest)
    | '[' :: rest =>
      match room with
      | 0 => .error .tooDeep
      | room + 1 =>
        match skipSpace rest with
        | ']' :: after => .ok (.list [], after)
        | body => (items room fuel body).map fun (vs, rest) => (.list vs, rest)
    | '\x7b' :: rest =>
      match room with
      | 0 => .error .tooDeep
      | room + 1 =>
        match skipSpace rest with
        | '\x7d' :: after => .ok (.mapping [], after)
        | body => (members room fuel [] body).map fun (es, rest) => (.mapping es, rest)
    | _ =>
      match word? cs with
      | some r => .ok r
      | none => wellFormed (number cs)

def items : (room fuel : Nat) → List Char → Except ReadError (List Value × List Char)
  | _, 0, _ => .error .malformed
  | room, fuel + 1, cs => do
    let (v, rest) ← value room fuel (skipSpace cs)
    match skipSpace rest with
    | ']' :: after => return ([v], after)
    | ',' :: after =>
      let (vs, rest) ← items room fuel after
      return (v :: vs, rest)
    | _ => .error .malformed

def members : (room fuel : Nat) → Entries → List Char → Except ReadError (Entries × List Char)
  | _, 0, _, _ => .error .malformed
  | room, fuel + 1, done, cs => do
    match skipSpace cs with
    | '"' :: rest =>
      let (key, rest) ← wellFormed (stringBody (rest.length + 1) rest)
      match skipSpace rest with
      | ':' :: rest =>
        let (v, rest) ← value room fuel (skipSpace rest)
        let done := done.put (.ofList key) v
        match skipSpace rest with
        | '\x7d' :: after => return (done, after)
        | ',' :: after => members room fuel done after
        | _ => .error .malformed
      | _ => .error .malformed
    | _ => .error .malformed

end

/-- One value, with blanks around it. -/
def readWith (cs : List Char) : Except ReadError Value := do
  let (v, rest) ← value number callRoom (2 * cs.length + 2) (skipSpace cs)
  if (skipSpace rest).isEmpty then return v else .error .malformed

end Collections

def load (cs : List Char) : Except ReadError Value := readWith number? cs

/-- The value, if there is one. -/
def read? (cs : List Char) : Option Value := (load cs).toOption

theorem read?_eq_some {cs : List Char} {v : Value} : read? cs = some v ↔ load cs = .ok v := by
  unfold read?
  cases load cs <;> simp [Except.toOption]

end RecordQuery.Json
