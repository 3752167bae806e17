import RecordQuery.Calendar.Iso
import RecordQuery.Fault
import RecordQuery.Model.Kind
import RecordQuery.Text.Case
import RecordQuery.Value.Text

/-!
# Coercion of operands

A request gives operands as texts or as values of its own; a filter compares values of the kind of
its field. Every kind has a reading of texts, and passes over values that are of the kind already.

* `coerce` brings a value to a kind, or names the kind of value that it fails to be.
-/

namespace RecordQuery

open RecordQuery.Number RecordQuery.Calendar RecordQuery.Text

/-- The kinds of value that a coercion can fail to find. -/
inductive Wanted where
  | boolean | integer | number | date | datetime | uuid | enum | text
deriving DecidableEq, Repr

def Wanted.name : Wanted → String
  | boolean => "boolean"
  | integer => "integer"
  | number => "number"
  | date => "date"
  | datetime => "datetime"
  | uuid => "uuid"
  | enum => "enum"
  | text => "text"

inductive CoercionError where
  | invalid (wanted : Wanted)
  | fault (f : Fault)
deriving DecidableEq, Repr

/-- What is said about a value that fails to be of a kind. -/
def Wanted.message (w : Wanted) : String := "invalid " ++ w.name ++ " value"

namespace Coercion

def found {α : Type} (wanted : Wanted) : Option α → Except CoercionError α
  | some a => .ok a
  | none => .error (.invalid wanted)

def trueWords : List String := ["1", "true", "yes", "y", "on"]
def falseWords : List String := ["0", "false", "no", "n", "off"]

def boolean (v : Value) : Except CoercionError Bool :=
  match v with
  | .bool b => .ok b
  | .int n => found .boolean (if n = 0 then some false else if n = 1 then some true else none)
  | v =>
    let word := String.ofList (lowerChars v.trimmedOrEmpty)
    found .boolean (if word ∈ trueWords then some true
      else if word ∈ falseWords then some false else none)

/-- The text of a number; a comma may stand for the point. -/
def numeral (v : Value) : List Char := v.trimmed.map fun c => if c = ',' then '.' else c

def integer (v : Value) : Except CoercionError Int :=
  match v with
  | .bool _ => .error (.invalid .integer)
  | .int n => .ok n
  | .float x => found .integer x.toInt?
  | v => found .integer (readInt (numeral v))

def float (v : Value) : Except CoercionError Binary64 :=
  match v with
  | .bool _ => .error (.invalid .number)
  | .float x => .ok x
  | .int n => match Binary64.ofInt? n with
    | some x => .ok x
    | none => .error (.fault .tooLarge)
  | v => found .number (Binary64.read? (numeral v))

def decimal (v : Value) : Except CoercionError Decimal :=
  match v with
  | .bool _ => .error (.invalid .number)
  | .decimal d => .ok d
  | .int n => .ok (.ofInt n)
  | v => found .number ((Decimal.read? (numeral v)).filter Decimal.isFinite)

/-- Every `Z` as the offset that it stands for. -/
def spellOutUtc (cs : List Char) : List Char := replaceAll ['Z'] "+00:00".toList cs

def hasTime (cs : List Char) : Bool := cs.contains 'T' || cs.contains ' '

def date (v : Value) : Except CoercionError Date :=
  match v with
  | .datetime t => .ok t.date
  | .date d => .ok d
  | v =>
    let cs := v.trimmedOrEmpty
    found .date (if hasTime cs then (Iso.readDateTime? (spellOutUtc cs)).map DateTime.date
      else Iso.readDate? cs)

/-- A time without an offset is taken as UTC, a day as its start. -/
def datetime (v : Value) : Except CoercionError DateTime :=
  match v with
  | .datetime t => .ok t.orUtc
  | .date d => .ok (DateTime.startOf d).orUtc
  | v =>
    let cs := v.trimmedOrEmpty
    let t? := if !hasTime cs && cs.length == 10 then (Iso.readDate? cs).map DateTime.startOf
      else Iso.readDateTime? (spellOutUtc cs)
    (found .datetime t?).map DateTime.orUtc

def uuid (v : Value) : Except CoercionError Uuid :=
  match v with
  | .uuid u => .ok u
  | v => found .uuid (Uuid.read? v.trimmedOrEmpty)

def option (options : List String) (v : Value) : Except CoercionError String :=
  let s := String.ofList v.trimmed
  found .enum (if s ∈ options then some s else none)

def text (v : Value) : Except CoercionError String :=
  match v with
  | .list _ | .tuple _ | .mapping _ => .error (.invalid .text)
  | v => .ok v.toText

end Coercion

/-- A value of the kind, which for an enumeration is one of its options. -/
def coerce (kind : Kind) (options : List String) (v : Value) : Except CoercionError Value :=
  match kind with
  | .boolean => (Coercion.boolean v).map .bool
  | .integer => (Coercion.integer v).map .int
  | .float => (Coercion.float v).map .float
  | .decimal => (Coercion.decimal v).map .decimal
  | .date => (Coercion.date v).map .date
  | .datetime => (Coercion.datetime v).map .datetime
  | .uuid => (Coercion.uuid v).map .uuid
  | .enum => (Coercion.option options v).map .text
  | .text | .json => (Coercion.text v).map .text

end RecordQuery
