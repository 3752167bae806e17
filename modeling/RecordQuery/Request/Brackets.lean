import RecordQuery.Request.Params

/-!
# Bracket keys

A key such as `filter[price][lt]` is a path: the root `filter` and the parts `price` and `lt`. The
values of all keys with one root form a tree.

* `readKey?` takes a key apart.
* `Tree.insertAt` writes a value at the end of a path, `Tree.at?` reads it.
* `Params.tree` is the tree of a root; a mapping that is itself the value of the root comes first.
-/

namespace RecordQuery

namespace Brackets

def isNameStart (c : Char) : Bool := c.isAlpha || c == '_'
def isNameChar (c : Char) : Bool := c.isAlphanum || c == '_'

/-- The parts of a path. The argument holds the characters of an open part, the last one first; a
line break may end the key. -/
def readParts : (opened : Option (List Char)) → List Char → Option (List (List Char))
  | none, [] => some []
  | none, ['\n'] => some []
  | none, c :: cs => if c = '[' then readParts (some []) cs else none
  | some _, [] => none
  | some part, c :: cs =>
    if c = ']' then (readParts none cs).map (part.reverse :: ·)
    else if c = '[' then none
    else readParts (some (c :: part)) cs

/-- The root and the parts of a key that has at least one part. -/
def readKey? (key : String) : Option (String × List String) :=
  let root := key.toList.takeWhile isNameChar
  match root, readParts none (key.toList.dropWhile isNameChar) with
  | c :: _, some (part :: parts) =>
    if isNameStart c then some (.ofList root, (part :: parts).map .ofList) else none
  | _, _ => none

end Brackets

namespace Tree

/-- The entries below a key, of which a value that is no mapping has none. -/
def below (tree : Entries) (key : String) : Entries := ((tree.get? key).bind Value.entries?).getD []

/-- Writes a value at the end of a path. -/
def insertAt (tree : Entries) : List String → Value → Entries
  | [], _ => tree
  | [key], v => tree.put key v
  | key :: path, v => tree.put key (.mapping (insertAt (below tree key) path v))

/-- The value at the end of a path. -/
def at? (tree : Entries) : List String → Option Value
  | [] => none
  | [key] => tree.get? key
  | key :: path => at? (below tree key) path

theorem at?_insertAt (tree : Entries) (path : List String) (v : Value) (h : path ≠ []) :
    at? (insertAt tree path v) path = some v := by
  induction path generalizing tree with
  | nil => exact absurd rfl h
  | cons key path ih =>
    cases path with
    | nil => simp [insertAt, at?, Entries.get?_put_self]
    | cons next path =>
      have hne : next :: path ≠ [] := by simp
      simp only [insertAt, at?, below, Entries.get?_put_self, Option.bind_some, Value.entries?,
        Option.getD_some]
      exact ih _ hne

end Tree

/-- The tree of the keys with a root. -/
def Params.tree (params : Params) (root : String) : Entries :=
  params.foldl (fun tree e =>
    match Brackets.readKey? e.1 with
    | some (name, path) => if name = root then Tree.insertAt tree path e.2 else tree
    | none => tree) (Tree.below params root)

end RecordQuery
