import RecordQuery.Digest.Bytes
import RecordQuery.Text.Split
import RecordQuery.Value.Basic

/-!
# Query strings

A query string holds pairs of a key and a value, between ampersands. Blanks are written as plus
signs, other characters as their bytes after percent signs.

* `QueryString.read` gives the pairs in their order.
-/

namespace RecordQuery.Web.QueryString

open RecordQuery.Digest RecordQuery.Text

/-- A query string arrives as bytes; every byte counts as one character. -/
def arrived (s : String) : List Char := (utf8Encode s.toList).map fun b => Char.ofNat b.toNat

/-- The bytes of a text of ASCII characters, in which two digits after a percent sign are one. -/
def percentBytes : List Char → Bytes
  | [] => []
  | '%' :: a :: b :: rest =>
    match Uuid.hexDigitValue? a, Uuid.hexDigitValue? b with
    | some x, some y => (x * 16 + y).toUInt8 :: percentBytes rest
    | _, _ => '%'.toNat.toUInt8 :: percentBytes (a :: b :: rest)
  | c :: rest => c.toNat.toUInt8 :: percentBytes rest

def isAscii (c : Char) : Bool := c.toNat < 0x80

/-- The text with the percent signs of each run of ASCII characters read. The argument holds the
run so far, the last character first. -/
def unquoteFrom (run : List Char) : List Char → List Char
  | [] => utf8Replace (percentBytes run.reverse)
  | c :: cs =>
    if isAscii c then unquoteFrom (c :: run) cs
    else utf8Replace (percentBytes run.reverse) ++ c :: unquoteFrom [] cs

def unquote (cs : List Char) : String :=
  .ofList (unquoteFrom [] (cs.map fun c => if c = '+' then ' ' else c))

/-- The pair of a part, whose value is empty if it has no equals sign. -/
def readPart (part : List Char) : String × Value :=
  let (key, value) := cutAt '=' part
  (unquote key, .text (unquote (value.getD [])))

def read (query : String) : List (String × Value) :=
  ((splitOn '&' (arrived query)).filter fun part => !part.isEmpty).map readPart

end RecordQuery.Web.QueryString
