/-!
# Regular expressions

The structure of a regular expression. Characters are given by their code points, and every test
carries the mode that is in force where it stands.

* `Node.width` is the least and the greatest length of a match, as far as it shows in the
  structure; a match behind a place needs the two to be the same.
* `Node.calls` are the calls in each other that it takes to go through the structure.
-/

namespace RecordQuery.Pattern

/-- Switches that an expression may turn on, for its whole or for a part. -/
structure Mode where
  ignoreCase : Bool := false
  ascii : Bool := false
  unicode : Bool := false
  multiline : Bool := false
  dotAll : Bool := false
  verbose : Bool := false
  /-- No repetition is allowed. -/
  single : Bool := false
deriving DecidableEq, Repr, Inhabited

inductive Category where
  | digit | space | word
deriving DecidableEq, Repr

/-- A member of a character set. -/
inductive SetItem where
  | range (low high : Nat)
  | category (negated : Bool) (c : Category)
deriving DecidableEq, Repr

/-- Places between characters. -/
inductive Anchor where
  | lineStart | lineEnd | textStart | textEnd | boundary | notBoundary
deriving DecidableEq, Repr

/-- The order in which repetitions are tried; a possessive one is never taken back. -/
inductive Greed where
  | greedy | lazy | possessive
deriving DecidableEq, Repr

inductive Node where
  | empty
  | literal (mode : Mode) (code : Nat)
  | anyChar (mode : Mode)
  | set (mode : Mode) (negated : Bool) (items : List SetItem)
  | anchor (mode : Mode) (a : Anchor)
  | seq (a b : Node)
  | alt (a b : Node)
  | capture (group : Nat) (body : Node)
  | backref (mode : Mode) (group : Nat)
  | rep (greed : Greed) (least : Nat) (most : Option Nat) (body : Node)
  | look (ahead negated : Bool) (width : Nat) (body : Node)
  | atomic (body : Node)
  | branchOn (group : Nat) (yes no : Node)
deriving Repr, Inhabited

/-- The expression has a repetition. -/
def Node.repeats : Node → Bool
  | .rep .. => true
  | .seq a b | .alt a b | .branchOn _ a b => a.repeats || b.repeats
  | .capture _ body | .look _ _ _ body | .atomic body => body.repeats
  | _ => false

/-- The calls in each other that it takes to go through the expression: one for what is in a group
or repeated, and one for an alternative. -/
def Node.calls : Node → Nat
  | .seq a b => max a.calls b.calls
  | .alt a b =>
    let rest := match b with
      | .alt .. => b.calls
      | _ => b.calls + 1
    max (a.calls + 1) rest
  | .branchOn _ a b => max a.calls b.calls + 1
  | .capture _ body | .rep _ _ _ body | .look _ _ _ body | .atomic body => body.calls + 1
  | _ => 0

/-- Least and greatest length of a match. -/
structure Width where
  low : Nat := 0
  high : Nat := 0
deriving DecidableEq, Repr

/-- A length that stands for no bound. -/
def unbounded : Nat := 0x10000000000000000

namespace Width

def add (a b : Width) : Width := ⟨a.low + b.low, a.high + b.high⟩
def join (a b : Width) : Width := ⟨min a.low b.low, max a.high b.high⟩
def capped (a : Width) : Width := ⟨min a.low unbounded, min a.high unbounded⟩

end Width

/-- The width of a node, given those of the groups. -/
def Node.width (groups : Nat → Width) : Node → Width
  | .empty | .anchor .. | .look .. => {}
  | .literal .. | .anyChar _ | .set .. => ⟨1, 1⟩
  | .seq a b => ((a.width groups).add (b.width groups)).capped
  | .alt a b => (a.width groups).join (b.width groups)
  | .capture _ body | .atomic body => body.width groups
  | .backref _ g => groups g
  | .rep _ least most body =>
    let w := body.width groups
    let high := match most with
      | some n => w.high * n
      | none => if w.high = 0 then 0 else unbounded
    Width.capped ⟨w.low * least, high⟩
  | .branchOn _ yes no => (yes.width groups).join (no.width groups)

end RecordQuery.Pattern
