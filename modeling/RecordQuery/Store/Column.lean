import RecordQuery.Store.Cell
import RecordQuery.Json.Reader
import RecordQuery.Json.Writer
import RecordQuery.Calendar.Iso

/-!
# Columns

The types of columns, and how values pass into cells and back.

* `ColumnType.keep?` brings a value into the form in which a column keeps it.
* `ColumnType.bind?` brings an operand into the form in which it is compared with a column. Times
  lose their offset, decimals become doubles, a NaN counts as absent.
* `ColumnType.read?` gives the value of a cell, if it can be read. An identifier whose digits are a
  number is kept as that number, and cannot be read any more.
-/

namespace RecordQuery.Store

open RecordQuery.Number RecordQuery.Calendar

inductive ColumnType where
  | integer
  | text
  | float
  /-- Numbers with a number of places, read as decimals or as floating numbers. -/
  | numeric (places : Nat) (asDecimal : Bool)
  | date
  | datetime
  | boolean
  | json
  | uuid
deriving DecidableEq, Repr

structure Column where
  name : String
  type : ColumnType
deriving DecidableEq, Repr

namespace ColumnType

/-- Texts are kept as they are; wherever else a text is a number, the number is kept. -/
def affinity : ColumnType → Affinity
  | text => .textual
  | _ => .numeric

def ofFloat (x : Binary64) : Cell := if x.isNan then .null else .real x

def integerCell? (n : Int) : Option Cell := if inRange n then some (.integer n) else none

/-- A moment as the store writes it: day and full time, without the offset. -/
def momentText (t : DateTime) : String :=
  .ofList (t.date.chars ++ ' ' :: t.time.fullChars)

/-- An operand as a cell; `none` if the store has no form for it. A column of identifiers refuses
texts. -/
def bind? (type : ColumnType) : Value → Option Cell
  | .null => some .null
  | .bool b => some (.integer (if b then 1 else 0))
  | .int n => integerCell? n
  | .float x => some (ofFloat x)
  | .decimal d => d.toBinary64?.map ofFloat
  | .date d => some (.text d.text)
  | .datetime t => some (.text (momentText t))
  | .uuid u => some (.text (.ofList u.hex))
  | .text s => if type = uuid then none else some (.text s)
  | v => if type = json then some (.text (Json.writeSpaced v)) else none

/-- A double in a column of its own or of numbers with places, where whole ones become integers. -/
def keepFloat (type : ColumnType) (x : Binary64) : Cell :=
  match type with
  | numeric .. => if x.isNan then .null else Cell.ofReal x
  | _ => ofFloat x

/-- A value as its column keeps it. -/
def keep? (type : ColumnType) (v : Value) : Option Cell :=
  match type, v with
  | json, v => some (Cell.toward .numeric (.text (Json.writeSpaced v)))
  | _, .null => some .null
  | uuid, .uuid u => some (Cell.toward .numeric (.text (.ofList u.hex)))
  | float, .int n | numeric .., .int n => (Binary64.ofInt? n).map (keepFloat type)
  | _, .float x => some (keepFloat type x)
  | _, .decimal d => d.toBinary64?.map (keepFloat type)
  | datetime, .date d => some (.text (momentText (.startOf d)))
  | date, .datetime t => some (.text t.date.text)
  | type, v => bind? type v

/-- A text as a value for its column: the form in which tables are filled. -/
def valueOfText? (type : ColumnType) (s : String) : Option Value :=
  match type with
  | uuid => (Uuid.read? s.toList).map .uuid
  | numeric _ true => (Decimal.read? s.toList).map .decimal
  | float | numeric _ false => (Binary64.read? s.toList).map .float
  | date => (Iso.readDate? s.toList).map .date
  | datetime => (Iso.readDateTime? s.toList).map .datetime
  | _ => some (.text s)

def places (n : Nat) (x : Binary64) : Value :=
  match x.toPlaces? n with
  | some (negative, count) => .decimal (.finite negative count (-(n : Int)))
  | none => .decimal (.ofBinary64 x)

/-- Days, times and identifiers are not read from numbers. -/
def readsNumbers : ColumnType → Bool
  | date | datetime | uuid => false
  | _ => true

/-- The value of a number of a column that is read from numbers. -/
def readNumber (type : ColumnType) (x : Binary64) (whole : Option Int) : Value :=
  match type with
  | numeric n true => places n x
  | float => .float x
  | boolean => .bool !x.isZero
  | _ => match whole with
    | some n => .int n
    | none => .float x

def readNumber? (type : ColumnType) (x : Binary64) (whole : Option Int) : Option Value :=
  if type.readsNumbers then some (type.readNumber x whole) else none

/-- The value of a text of a column. -/
def readText? (type : ColumnType) (s : String) : Option Value :=
  match type with
  | date => (Iso.readDate? s.toList).map .date
  | datetime => (Iso.readDateTime? s.toList).map .datetime
  | uuid => (Uuid.read? s.toList).map .uuid
  | json => Json.read? s.toList
  | numeric _ true => none
  | _ => some (.text s)

/-- The value of a cell of a column, if it can be read. -/
def read? (type : ColumnType) : Cell → Option Value
  | .null => some .null
  | .integer n => readNumber? type ((Binary64.ofInt? n).getD .zero) (some n)
  | .real x => readNumber? type x none
  | .text s => readText? type s

/-- The value of a cell that can be read. -/
def read (type : ColumnType) (c : Cell) : Value := (read? type c).getD .null

end ColumnType
end RecordQuery.Store
