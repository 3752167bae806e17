import RecordQuery.Pattern.Fold
import RecordQuery.Pattern.Reader
import RecordQuery.Text.Blank

/-!
# Matching regular expressions

A node is run from a place in the text, and what has to follow it is given as a continuation, so
that the alternatives are tried in their order and taken back when the rest fails. A repetition
goes on only while it makes progress, which bounds it by the length of the text.

* `Pattern.search` looks for a part of the text that an expression describes.
-/

namespace RecordQuery.Pattern

open RecordQuery.Text

/-- A place in the text and the parts that the groups have taken. -/
structure Place where
  pos : Nat
  captures : List (Nat × Nat × Nat) := []

abbrev Continuation := Place → Option Place
abbrev Run := Place → Continuation → Option Place

def inCategory (ascii : Bool) (c : Category) (n : Nat) : Bool :=
  let ch := Char.ofNat n
  if ascii ∧ 0x80 ≤ n then false
  else match c with
    | .digit => isDecimal ch
    | .space => if ascii then n = 0x20 || (0x09 ≤ n && n ≤ 0x0D) else isBlank ch
    | .word => isWord ch

def SetItem.holds (mode : Mode) (n : Nat) : SetItem → Bool
  | .range low high =>
    if mode.ignoreCase then foldsInto mode.ascii low high n else low ≤ n && n ≤ high
  | .category negated c =>
    let n := if mode.ignoreCase then lowerCode mode.ascii n else n
    inCategory mode.ascii c n != negated

def isWordAt (text : Array Char) (ascii : Bool) (pos : Nat) : Bool :=
  match text[pos]? with
  | some c => inCategory ascii .word c.toNat
  | none => false

def Anchor.holds (text : Array Char) (mode : Mode) (pos : Nat) : Anchor → Bool
  | .textStart => pos = 0
  | .textEnd => pos = text.size
  | .lineStart => pos = 0 || (mode.multiline && text[pos - 1]? = some '\n')
  | .lineEnd =>
    pos = text.size || (pos + 1 = text.size && text[pos]? = some '\n') ||
      (mode.multiline && text[pos]? = some '\n')
  | .boundary => inside (pos - 1) (0 < pos) != isWordAt text mode.ascii pos
  | .notBoundary => text.size != 0 && inside (pos - 1) (0 < pos) == isWordAt text mode.ascii pos
where
  inside (before : Nat) (there : Bool) : Bool := there && isWordAt text mode.ascii before

/-- One character that passes a test. -/
def step (text : Array Char) (test : Nat → Bool) : Run := fun p k =>
  match text[p.pos]? with
  | some c => if test c.toNat then k { p with pos := p.pos + 1 } else none
  | none => none

/-- The characters from one place to another again, from the present place on. -/
def sameAgain (text : Array Char) (mode : Mode) (start stop pos : Nat) : Bool :=
  (List.range (stop - start)).all fun i =>
    match text[start + i]?, text[pos + i]? with
    | some a, some b =>
      if mode.ignoreCase then lowerCode mode.ascii a.toNat = lowerCode mode.ascii b.toNat
      else a = b
    | _, _ => false

def firstSome {α : Type} (a : Option α) (b : Unit → Option α) : Option α :=
  match a with
  | some x => some x
  | none => b ()

/-- Repeats `body`, which has been done `count` times; an iteration without progress is the
last. -/
def loop (body : Run) (lazy : Bool) (least : Nat) (most : Option Nat) :
    (fuel count : Nat) → Run
  | 0, _ => fun p k => k p
  | fuel + 1, count => fun p k =>
    let again (_ : Unit) : Option Place :=
      if most.all (count < ·) then
        body p fun q =>
          if q.pos = p.pos then k q else loop body lazy least most fuel (count + 1) q k
      else none
    if count < least then again ()
    else if lazy then firstSome (k p) again
    else firstSome (again ()) fun _ => k p

def Node.run (text : Array Char) : Node → Run
  | .empty => fun p k => k p
  | .literal mode code =>
    step text fun n => if mode.ignoreCase then foldsTo mode.ascii code n else code = n
  | .anyChar mode => step text fun n => mode.dotAll || n != 10
  | .set mode negated items =>
    step text fun n => items.any (SetItem.holds mode n) != negated
  | .anchor mode a => fun p k => if a.holds text mode p.pos then k p else none
  | .seq a b => fun p k => a.run text p fun q => b.run text q k
  | .alt a b => fun p k => firstSome (a.run text p k) fun _ => b.run text p k
  | .capture g body => fun p k =>
    body.run text p fun q => k { q with captures := (g, p.pos, q.pos) :: q.captures }
  | .backref mode g => fun p k =>
    match p.captures.lookup g with
    | some (start, stop) =>
      if sameAgain text mode start stop p.pos then k { p with pos := p.pos + (stop - start) }
      else none
    | none => none
  | .rep greed least most body => fun p k =>
    let fuel := text.size - p.pos + 2
    match greed with
    | .possessive => (loop (body.run text) false least most fuel 0 p some).bind k
    | _ => loop (body.run text) (greed = .lazy) least most fuel 0 p k
  | .look ahead negated width body => fun p k =>
    let found :=
      if ahead then body.run text p some
      else if p.pos < width then none
      else body.run text { p with pos := p.pos - width } fun q =>
        if q.pos = p.pos then some q else none
    match found, negated with
    | some q, false => k { p with captures := q.captures }
    | none, true => k p
    | _, _ => none
  | .atomic body => fun p k => (body.run text p some).bind k
  | .branchOn g yes no => fun p k =>
    if (p.captures.lookup g).isSome then yes.run text p k else no.run text p k

/-- Some part of the text is described by the expression. -/
def search (node : Node) (cs : List Char) : Bool :=
  let text := cs.toArray
  (List.range (text.size + 1)).any fun start => (node.run text ⟨start, []⟩ some).isSome

end RecordQuery.Pattern
