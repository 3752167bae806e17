import RecordQuery.Value.Text

/-!
# Writing JSON

Only characters of ASCII are written, others being escaped by their UTF-16 units. Values that JSON
does not know are written as their texts.

* `Json.chars` is the compact form of a value, `Json.writeSpaced` one with blanks. Both keep the
  order of entries.
* `Json.sorted` brings every mapping into key order.
-/

namespace RecordQuery.Json

open RecordQuery.Number

def unitEscape (n : Nat) : List Char := '\\' :: 'u' :: Uuid.hexDigits 4 n

/-- A character inside a string. -/
def stringChar (c : Char) : List Char :=
  if c = '"' then ['\\', '"']
  else if c = '\\' then ['\\', '\\']
  else if c = '\n' then ['\\', 'n']
  else if c = '\r' then ['\\', 'r']
  else if c = '\t' then ['\\', 't']
  else if c = '\x08' then ['\\', 'b']
  else if c = '\x0c' then ['\\', 'f']
  else if 0x20 ≤ c.toNat ∧ c.toNat < 0x7F then [c]
  else if c.toNat < 0x10000 then unitEscape c.toNat
  else
    let n := c.toNat - 0x10000
    unitEscape (0xD800 + n / 0x400) ++ unitEscape (0xDC00 + n % 0x400)

def stringChars (cs : List Char) : List Char := '"' :: cs.flatMap stringChar ++ ['"']

def floatChars : Binary64 → List Char
  | .nan => "NaN".toList
  | .infinity negative => Binary64.signed negative "Infinity".toList
  | x => x.chars

mutual

/-- The form of a value with a gap after every comma and colon. -/
def charsWith (gap : List Char) : Value → List Char
  | .null => "null".toList
  | .bool b => (if b then "true" else "false").toList
  | .int n => intChars n
  | .float x => floatChars x
  | .list items => '[' :: listChars gap items ++ [']']
  | .tuple items => '[' :: listChars gap items ++ [']']
  | .mapping entries => '\x7b' :: entriesChars gap entries ++ ['\x7d']
  | v => stringChars v.chars

def listChars (gap : List Char) : List Value → List Char
  | [] => []
  | [v] => charsWith gap v
  | v :: rest => charsWith gap v ++ ',' :: gap ++ listChars gap rest

def entriesChars (gap : List Char) : Entries → List Char
  | [] => []
  | [(k, v)] => stringChars k.toList ++ ':' :: gap ++ charsWith gap v
  | (k, v) :: rest =>
    stringChars k.toList ++ ':' :: gap ++ charsWith gap v ++ ',' :: gap ++ entriesChars gap rest

end

def chars (v : Value) : List Char := charsWith [] v

def write (v : Value) : String := .ofList (chars v)

/-- The form with a blank after every comma and colon. -/
def writeSpaced (v : Value) : String := .ofList (charsWith [' '] v)

/-- Entries in the order of their keys. -/
def inKeyOrder (entries : Entries) : Entries :=
  entries.mergeSort fun a b => decide (a.1 ≤ b.1)

mutual

/-- The value with all its mappings in key order. -/
def sorted : Value → Value
  | .mapping entries => .mapping (inKeyOrder (sortedEntries entries))
  | .list items => .list (sortedList items)
  | .tuple items => .tuple (sortedList items)
  | v => v

def sortedList : List Value → List Value
  | [] => []
  | v :: rest => sorted v :: sortedList rest

def sortedEntries : Entries → Entries
  | [] => []
  | (k, v) :: rest => (k, sorted v) :: sortedEntries rest

end

mutual

/-- No number in the value is infinite or a NaN. -/
def isEncodable : Value → Bool
  | .float x => x.isFinite
  | .list items => isEncodableList items
  | .tuple items => isEncodableList items
  | .mapping entries => isEncodableEntries entries
  | _ => true

def isEncodableList : List Value → Bool
  | [] => true
  | v :: rest => isEncodable v && isEncodableList rest

def isEncodableEntries : Entries → Bool
  | [] => true
  | (_, v) :: rest => isEncodable v && isEncodableEntries rest

end
end RecordQuery.Json
