import RecordQuery.Text.Ranges

/-!
# Wildcard patterns

Patterns in which `%` stands for any text and `_` for any character, unless `/` stands before them.
Letters of ASCII match in either case. Patterns and texts end at a null character.

* `escape` makes a text stand for itself, `accepts` decides whether a text fits a pattern.
* `takes` says that a pattern is short enough for the store.
-/

namespace RecordQuery.Store.Like

def marks : List Char := ['/', '%', '_']

/-- The pattern that stands for a text itself. -/
def escape : List Char → List Char
  | [] => []
  | c :: cs => if c ∈ marks then '/' :: c :: escape cs else c :: escape cs

def lowerAscii (cs : List Char) : List Char := cs.map Char.toLower

def sameLetter (a b : Char) : Bool := a.toLower == b.toLower

/-- Some end of the text, which may be all of it, satisfies `p`. -/
def someEnd (p : List Char → Bool) : List Char → Bool
  | [] => p []
  | c :: cs => p (c :: cs) || someEnd p cs

/-- A text up to its first null character. -/
def untilNull (cs : List Char) : List Char := cs.takeWhile fun c => c != '\x00'

/-- The text, which has no null character, fits the pattern. -/
def fits : (pattern text : List Char) → Bool
  | [], text => text.isEmpty
  | '%' :: ps, text => someEnd (fits ps) text
  | '_' :: ps, text =>
    match text with
    | _ :: cs => fits ps cs
    | [] => false
  | '/' :: p :: ps, text =>
    match text with
    | c :: cs => sameLetter p c && fits ps cs
    | [] => false
  | p :: ps, text =>
    match text with
    | c :: cs => sameLetter p c && fits ps cs
    | [] => false

/-- The greatest size of a pattern, in bytes. -/
def longest : Nat := 50000

/-- The bytes of a text. -/
def bytes : List Char → Nat
  | [] => 0
  | c :: cs => c.utf8Size + bytes cs

/-- The store takes the pattern. -/
def takes (pattern : List Char) : Bool := bytes pattern ≤ longest

/-- The text fits the pattern, in lower case if `folded`. -/
def accepts (folded : Bool) (pattern text : List Char) : Bool :=
  let form (cs : List Char) := untilNull (if folded then lowerAscii cs else cs)
  fits (form pattern) (form text)

end RecordQuery.Store.Like
