import RecordQuery.Calendar.Iso
import RecordQuery.Query.Specification
import RecordQuery.Token

/-!
# Cursors

A cursor is a position in an order, signed so that clients cannot make one up. It holds the sort
values of a row, each with a tag for its type, and a signature of the order it belongs to.

* `Cursor.encode` writes the sort values of a row.
* `Cursor.decode` reads them back, for the same order and secret only.
-/

namespace RecordQuery

open RecordQuery.Number RecordQuery.Calendar RecordQuery.Text

inductive CursorError where
  | invalid
  /-- The cursor belongs to another order. -/
  | otherSort
  | fault (f : Fault)
deriving DecidableEq, Repr

namespace Cursor

def version : String := "c1"

/-- The secret in force if none is given. -/
def defaultSecret : List Char := "change_me_cursor".toList

def effectiveSecret (secret : Option String) : List Char :=
  match trimChars ((secret.getD "").toList) with
  | [] => defaultSecret
  | cs => cs

/-- An order as a text: its fields and directions. -/
def sortText (sort : List SortCriterion) : List Char :=
  intercalate ['|'] (sort.map fun s => s.field.toList ++ ':' :: s.direction.name.toList)

/-- A short digest of an order. -/
def signature (sort : List SortCriterion) : String :=
  .ofList ((Digest.sha256Hex (sortText sort)).take 16)

/-- A value with the tag of its type. -/
def tag : Value → Value
  | .null => .list [.text "n", .null]
  | .bool b => .list [.text "b", .bool b]
  | .int n => .list [.text "i", .int n]
  | .float x => .list [.text "f", .float x]
  | .decimal d => .list [.text "d", .text d.text]
  | .datetime t => .list [.text "dt", .text t.text]
  | .date d => .list [.text "da", .text d.text]
  | .uuid u => .list [.text "u", .text u.text]
  | v => .list [.text "s", .text v.toText]

def found {α : Type} : Option α → Except CursorError α
  | some a => .ok a
  | none => .error .invalid

/-! ## Decimals from their parts -/

/-- An integer; a boolean counts as 1 or 0. -/
def whole? : Value → Option Int
  | .int n => some n
  | .bool b => some (if b then 1 else 0)
  | _ => none

/-- A digit of a coefficient. -/
def digit? (v : Value) : Option Char := do
  let n ← whole? v
  if 0 ≤ n ∧ n ≤ 9 then some (digitChar n.toNat) else none

/-- The sign is 1 for a negative number and else 0. -/
def isNegative? (v : Value) : Option Bool := do
  let n ← whole? v
  if n = 0 then some false else if n = 1 then some true else none

def coefficient? (v : Value) : Option (List Char) := do (← v.items?).mapM digit?

/-- A decimal from sign, digits and exponent, or a word for what is not finite. -/
def decimalOfParts : List Value → Except CursorError Decimal
  | [sign, digits, exponent] => do
    let negative ← found (isNegative? sign)
    let signed (cs : List Char) := found (Decimal.read? (if negative then '-' :: cs else cs))
    match exponent with
    | .text "F" =>
      let _ ← found digits.items?
      signed "Inf".toList
    | .text "n" => signed ("NaN".toList ++ (← found (coefficient? digits)))
    | .text "N" => signed ("sNaN".toList ++ (← found (coefficient? digits)))
    | v =>
      let n ← found (whole? v)
      if n < -0x8000000000000000 ∨ 0x8000000000000000 ≤ n then throw (.fault .tooLarge)
      let cs ← found (coefficient? digits)
      signed ((if cs.isEmpty then ['0'] else cs) ++ 'E' :: intChars n)
  | _ => .error .invalid

def decimalOf : Value → Except CursorError Decimal
  | .text s => found (Decimal.read? s.toList)
  | .int n => .ok (.ofInt n)
  | .bool b => .ok (.ofInt (if b then 1 else 0))
  | .float x => .ok (.ofBinary64 x)
  | .list items => decimalOfParts items
  | _ => .error .invalid

def uuidOf : Value → Except CursorError Uuid
  | .text s => found (Uuid.read? s.toList)
  | .null => .error .invalid
  | _ => .error (.fault .notText)

/-- The value of a tag and what stands beside it. -/
def untagAs (name : String) (raw : Value) : Except CursorError Value :=
  match name with
  | "n" => .ok .null
  | "b" | "i" | "f" | "s" => .ok raw
  | "d" => (decimalOf raw).map .decimal
  | "dt" => found ((raw.text?.bind fun s => Iso.readDateTime? s.toList).map .datetime)
  | "da" => found ((raw.text?.bind fun s => Iso.readDate? s.toList).map .date)
  | "u" => (uuidOf raw).map .uuid
  | _ => .error .invalid

def untag : Value → Except CursorError Value
  | .list [.text name, raw] => untagAs name raw
  | _ => .error .invalid

def claims (values : List Value) (sort : List SortCriterion) : Entries :=
  [("v", .text version), ("s", .text (signature sort)), ("k", .list (values.map tag))]

/-- The cursor of a row with these sort values. -/
def encode (secret : Option String) (values : List Value) (sort : List SortCriterion) : String :=
  .ofList (Token.sign (effectiveSecret secret) (claims values sort))

def untagAll : List Value → Except CursorError (List Value)
  | [] => .ok []
  | v :: rest => do
    let w ← untag v
    return w :: (← untagAll rest)

/-- The position that claims hold, if they are about this order. -/
def position (sort : List SortCriterion) (claims : Entries) : Except CursorError (List Value) :=
  let entry name := (claims.get? name).getD .null
  if !(entry "v").eqv (.text version) then .error .invalid
  else if !(entry "s").eqv (.text (signature sort)) then .error .otherSort
  else match entry "k" with
    | .list keys => if keys.length = sort.length then untagAll keys else .error .invalid
    | _ => .error .invalid

/-- The sort values of a cursor at the time `now`, in seconds. -/
def decode (secret : Option String) (now : Int) (token : String) (sort : List SortCriterion) :
    Except CursorError (List Value) :=
  match trimChars token.toList with
  | [] => .error .invalid
  | cs =>
    match Token.read (effectiveSecret secret) now cs with
    | .ok claims => position sort claims
    | .error .invalid => .error .invalid
    | .error (.fault f) => .error (.fault f)

end Cursor

/-- What is said of a cursor that is refused. -/
def CursorError.message : CursorError → String
  | .otherSort => "cursor does not match sort"
  | _ => "invalid cursor"

end RecordQuery
