import RecordQuery.Value.Basic
import RecordQuery.Text.Printable

/-!
# The text of a value

How a value is written where a text is wanted: texts as they are, numbers by their digits, times
in ISO form, and collections with their members in source form.

* `Value.chars` is the plain text, `Value.source` the form inside a collection.
* `Value.trimmed` is the text without blanks at its ends, empty for an absent value.
-/

namespace RecordQuery

open RecordQuery.Number RecordQuery.Calendar RecordQuery.Text

namespace Value

def hexPadded (width n : Nat) : List Char := Uuid.hexDigits width n

/-- A character inside quotes. -/
def quotedChar (quote c : Char) : List Char :=
  if c = quote ∨ c = '\\' then ['\\', c]
  else if c = '\n' then "\\n".toList
  else if c = '\r' then "\\r".toList
  else if c = '\t' then "\\t".toList
  else if isPrintable c then [c]
  else if c.toNat < 0x100 then '\\' :: 'x' :: hexPadded 2 c.toNat
  else if c.toNat < 0x10000 then '\\' :: 'u' :: hexPadded 4 c.toNat
  else '\\' :: 'U' :: hexPadded 8 c.toNat

/-- A text in quotes: single ones, unless only double ones need no escape. -/
def quoted (cs : List Char) : List Char :=
  let single := Char.ofNat 0x27
  let quote := if cs.contains single && !cs.contains '"' then '"' else single
  quote :: cs.flatMap (quotedChar quote) ++ [quote]

def separated (items : List (List Char)) : List Char := intercalateComma items
where
  intercalateComma : List (List Char) → List Char
    | [] => []
    | [item] => item
    | item :: rest => item ++ ',' :: ' ' :: intercalateComma rest

/-- The source form of an offset: UTC by name, others as a span of days and seconds. -/
def offsetSource (o : Offset) : List Char :=
  if o.micros = 0 then "datetime.timezone.utc".toList
  else
    let days := o.micros.fdiv microsPerDay
    let rest := (o.micros - days * microsPerDay).toNat
    let seconds := rest / microsPerSecond
    let micro := rest % microsPerSecond
    let parts :=
      (if days = 0 then [] else ["days=".toList ++ intChars days]) ++
      (if seconds = 0 then [] else ["seconds=".toList ++ natDigits seconds]) ++
      (if micro = 0 then [] else ["microseconds=".toList ++ natDigits micro])
    "datetime.timezone(datetime.timedelta(".toList ++ separated parts ++ "))".toList

def dateSource (d : Date) : List Char :=
  "datetime.date(".toList ++ separated ([d.year, d.month, d.day].map natDigits) ++ [')']

def timeSource (t : DateTime) : List Char :=
  let clock := [t.time.hour, t.time.minute] ++
    (if t.time.second = 0 ∧ t.time.micro = 0 then [] else [t.time.second]) ++
    (if t.time.micro = 0 then [] else [t.time.micro])
  let parts := ([t.date.year, t.date.month, t.date.day] ++ clock).map natDigits
  let zone := match t.offset with
    | some o => ["tzinfo=".toList ++ offsetSource o]
    | none => []
  "datetime.datetime(".toList ++ separated (parts ++ zone) ++ [')']

mutual

/-- The form of a value inside a collection. -/
def source : Value → List Char
  | .null => "None".toList
  | .bool b => (if b then "True" else "False").toList
  | .int n => intChars n
  | .float x => x.chars
  | .decimal d => "Decimal(".toList ++ quoted d.chars ++ [')']
  | .date d => dateSource d
  | .datetime t => timeSource t
  | .uuid u => "UUID(".toList ++ quoted u.chars ++ [')']
  | .text s => quoted s.toList
  | .list items => '[' :: separated (sourceList items) ++ [']']
  | .tuple items =>
    '(' :: separated (sourceList items) ++ (if items.length = 1 then [',', ')'] else [')'])
  | .mapping entries => '\x7b' :: separated (sourceEntries entries) ++ ['\x7d']

def sourceList : List Value → List (List Char)
  | [] => []
  | v :: rest => source v :: sourceList rest

def sourceEntries : Entries → List (List Char)
  | [] => []
  | (k, v) :: rest => (quoted k.toList ++ ':' :: ' ' :: source v) :: sourceEntries rest

end

/-- The text of a value. -/
def chars : Value → List Char
  | .text s => s.toList
  | .decimal d => d.chars
  | .date d => d.chars
  | .datetime t => t.iso ' '
  | .uuid u => u.chars
  | v => source v

def toText (v : Value) : String := .ofList v.chars

/-- The text without blanks at its ends; an absent value has the empty text. -/
def trimmed (v : Value) : List Char :=
  match v with
  | .null => []
  | v => trimChars v.chars

/-- The text of a truthy value without blanks at its ends, else the empty text. -/
def trimmedOrEmpty (v : Value) : List Char := if v.isTruthy then trimChars v.chars else []

end Value
end RecordQuery
