import RecordQuery.Fault
import RecordQuery.Pattern.Names
import RecordQuery.Pattern.Syntax
import RecordQuery.Number.Numeral
import RecordQuery.Text.Word
import RecordQuery.Uuid

/-!
# Reading regular expressions

A reader of the usual notation: alternatives, sets, repetitions greedy, lazy and possessive,
groups with and without a name, back references, conditions, assertions before and behind a place,
atomic groups, inline switches and comments. A group takes two calls of the reader and a condition
one, of which so many can be open in each other; a group of switches is counted as its inside when
it comes to going through the whole.

* `read?` gives the structure of an expression or the cause for which it has none.
-/

namespace RecordQuery.Pattern

open RecordQuery.Number RecordQuery.Text

/-- Why a text is no regular expression. -/
inductive ReadError where
  | malformed
  /-- A repetition count of `2^32 - 1` or more. -/
  | countTooLarge
  /-- Switched to ASCII and to Unicode at once. -/
  | conflictingModes
  /-- More groups in each other than there is room for. -/
  | tooDeep
deriving DecidableEq, Repr

/-- A character, or one with a backslash before it. -/
inductive Token where
  | plain (c : Char)
  | escaped (c : Char)
  /-- A backslash at the end. -/
  | dangling
deriving DecidableEq, Repr

def tokens : List Char → List Token
  | [] => []
  | '\\' :: c :: cs => .escaped c :: tokens cs
  | ['\\'] => [.dangling]
  | c :: cs => .plain c :: tokens cs

structure ReadState where
  rest : List Token
  characters : CharacterNames
  /-- The calls that can still be made in each other; the whole takes two. -/
  room : Nat := callRoom - 2
  /-- The switches of the whole expression. -/
  mode : Mode := {}
  /-- The widths of the groups that are closed; an open group has none. -/
  widths : List (Nat × Width) := []
  groups : Nat := 1
  names : List (String × Nat) := []
  /-- Inside an assertion about what is behind: the first group that is opened there. -/
  behindFrom : Option Nat := none
  /-- Groups that conditions refer to. -/
  conditions : List Nat := []
  /-- An assertion about what is behind has no fixed width. -/
  loose : Bool := false

abbrev Reader := StateT ReadState (Except ReadError)

namespace Reader

def fail {α : Type} : Reader α := throw .malformed

def greatestCount : Nat := 4294967295
def greatestGroup : Nat := 1073741823

/-- Reads what takes so many calls in each other. -/
def nested {α : Type} (calls : Nat) (inside : Reader α) : Reader α := do
  let room := (← get).room
  if room < calls then throw .tooDeep
  modify fun s => { s with room := room - calls }
  let a ← inside
  modify fun s => { s with room }
  return a

def setRest (rest : List Token) : Reader Unit := do
  if rest.head? = some .dangling then fail
  modify fun s => { s with rest }

/-- The token that comes next. -/
def peek : Reader (Option Token) := return (← get).rest.head?

/-- Takes the next token. -/
def take : Reader (Option Token) := do
  match (← get).rest with
  | [] => return none
  | t :: rest => setRest rest; return some t

/-- Takes the next token, which has to be there. -/
def demand : Reader Token := do
  match ← take with
  | some t => return t
  | none => fail

/-- Takes the next token if it is the given character. -/
def accept (c : Char) : Reader Bool := do
  match (← get).rest with
  | t :: rest => if t = .plain c then setRest rest; return true else return false
  | [] => return false

def expect (c : Char) : Reader Unit := do
  if !(← accept c) then fail

/-- Takes up to `n` characters of a class. -/
def takeUpTo (p : Char → Bool) : Nat → Reader (List Char)
  | 0 => return []
  | n + 1 => do
    match ← peek with
    | some (.plain c) =>
      if p c then
        let _ ← take
        return c :: (← takeUpTo p n)
      else return []
    | _ => return []

/-- Takes the characters of a class. -/
def takeAll (p : Char → Bool) : Reader (List Char) := do takeUpTo p (← get).rest.length

def isOctal (c : Char) : Bool := '0' ≤ c && c ≤ '7'
def isHex (c : Char) : Bool := (Uuid.hexDigitValue? c).isSome

def octalValue (cs : List Char) : Nat :=
  cs.foldl (fun acc c => 8 * acc + (c.toNat - '0'.toNat)) 0

/-- Exactly `n` hexadecimal digits. -/
def hexCode (n : Nat) : Reader Nat := do
  let cs ← takeUpTo isHex n
  match Uuid.hexFrom 0 cs with
  | some v => if cs.length = n then return v else fail
  | none => fail

def tokenChars : Token → List Char
  | .plain c => [c]
  | .escaped c => ['\\', c]
  | .dangling => ['\\']

/-- The characters up to a terminator, at least one. -/
def untilFrom (terminator : Char) : Nat → Reader (List Char)
  | 0 => fail
  | n + 1 => do
    let t ← demand
    if t = .plain terminator then return []
    else return tokenChars t ++ (← untilFrom terminator n)

def nameUntil (terminator : Char) : Reader (List Char) := do
  let name ← untilFrom terminator ((← get).rest.length + 1)
  if name.isEmpty then fail else return name

/-- A character by its name in braces. -/
def namedCharacter : Reader Nat := do
  expect '\x7b'
  match (← get).characters (← nameUntil '\x7d') with
  | some n => return n
  | none => fail

/-- The escapes of control characters. -/
def controlCode? : Char → Option Nat
  | 'a' => some 7
  | 'b' => some 8
  | 'f' => some 12
  | 'n' => some 10
  | 'r' => some 13
  | 't' => some 9
  | 'v' => some 11
  | '\\' => some 92
  | _ => none

def category? : Char → Option SetItem
  | 'd' => some (.category false .digit)
  | 'D' => some (.category true .digit)
  | 's' => some (.category false .space)
  | 'S' => some (.category true .space)
  | 'w' => some (.category false .word)
  | 'W' => some (.category true .word)
  | _ => none

/-- An escape by number or by name, if `c` starts one. -/
def codeEscape? (c : Char) : Reader (Option Nat) := do
  if c = 'x' then return some (← hexCode 2)
  else if c = 'u' then return some (← hexCode 4)
  else if c = 'U' then
    let n ← hexCode 8
    if n ≤ 0x10FFFF then return some n else fail
  else if c = 'N' then return some (← namedCharacter)
  else return none

/-- Letters and digits have no meaning of their own after a backslash. -/
def plainEscape (c : Char) : Reader Nat := if c.isAlphanum then fail else return c.toNat

/-- An escape inside a set. -/
def setEscape (c : Char) : Reader SetItem := do
  match controlCode? c, category? c with
  | some n, _ => return .range n n
  | none, some item => return item
  | none, none =>
    match ← codeEscape? c with
    | some n => return .range n n
    | none =>
      if isOctal c then
        let n := octalValue (c :: (← takeUpTo isOctal 2))
        if n > 255 then fail else return .range n n
      else
        let n ← plainEscape c
        return .range n n

/-- One member of a set, as it stands. -/
def setMember (t : Token) : Reader SetItem :=
  match t with
  | .plain c => return .range c.toNat c.toNat
  | .escaped c => setEscape c
  | .dangling => fail

/-- The members of a set up to its closing bracket, which is a member if it comes first. -/
def setItems : Nat → List SetItem → Reader (List SetItem)
  | 0, _ => fail
  | n + 1, done => do
    let t ← demand
    if t = .plain ']' ∧ !done.isEmpty then return done
    else
      let item ← setMember t
      if ← accept '-' then
        let t ← demand
        if t = .plain ']' then return done ++ [item, .range 45 45]
        else
          match item, ← setMember t with
          | .range low _, .range high _ =>
            if high < low then fail else setItems n (done ++ [.range low high])
          | _, _ => fail
      else setItems n (done ++ [item])

def isOpen (group : Nat) : Reader Bool := do
  let s ← get
  return !(group < s.groups && s.widths.any (·.1 == group))

/-- Refuses, inside an assertion about what is behind, a group that is open or defined there. -/
def checkBehind (group : Nat) : Reader Unit := do
  match (← get).behindFrom with
  | none => return
  | some first => if (← isOpen group) ∨ first ≤ group then fail

def backreference (mode : Mode) (group : Nat) : Reader Node := do
  if ← isOpen group then fail
  checkBehind group
  return .backref mode group

/-- A number after a backslash: an octal code of three digits, or a group. -/
def numberEscape (mode : Mode) (c : Char) : Reader Node := do
  if c = '0' then
    return .literal mode (octalValue (← takeUpTo isOctal 2))
  match ← peek with
  | some (.plain d) =>
    if isAsciiDigit d then
      let _ ← take
      match isOctal c && isOctal d, ← peek with
      | true, some (.plain e) =>
        if isOctal e then
          let _ ← take
          let n := octalValue [c, d, e]
          if n > 255 then fail else return .literal mode n
        else group [c, d]
      | _, _ => group [c, d]
    else group [c]
  | _ => group [c]
where
  group (ds : List Char) : Reader Node := do
    match readNat ds with
    | some g => if g < (← get).groups then backreference mode g else fail
    | none => fail

/-- An escape outside a set. -/
def escapeNode (mode : Mode) (c : Char) : Reader Node := do
  let anchor? : Option Anchor := match c with
    | 'A' => some .textStart
    | 'Z' => some .textEnd
    | 'b' => some .boundary
    | 'B' => some .notBoundary
    | _ => none
  match anchor?, category? c, controlCode? c with
  | some a, _, _ => return .anchor mode a
  | none, some item, _ => return .set mode false [item]
  | none, none, some n => return .literal mode n
  | none, none, none =>
    match ← codeEscape? c with
    | some n => return .literal mode n
    | none =>
      if isAsciiDigit c then numberEscape mode c
      else return .literal mode (← plainEscape c)

/-- A name starts with a letter or underscore and goes on with word characters. -/
def isName : List Char → Bool
  | [] => false
  | c :: cs => isWord c && !isDigit c && cs.all fun d => isWord d && (isDecimal d || !isDigit d)

def groupNamed (name : List Char) : Reader Nat := do
  match (← get).names.lookup (.ofList name) with
  | some g => return g
  | none => fail

def openGroup (name : Option (List Char)) : Reader Nat := do
  let s ← get
  let g := s.groups
  if g ≥ greatestGroup then fail
  match name with
  | none => set { s with groups := g + 1 }
  | some name =>
    if (s.names.lookup (.ofList name)).isSome then fail
    set { s with groups := g + 1, names := (.ofList name, g) :: s.names }
  return g

def widthOf (widths : List (Nat × Width)) (g : Nat) : Width := (widths.lookup g).getD {}

def closeGroup (g : Nat) (body : Node) : Reader Unit :=
  modify fun s => { s with widths := (g, body.width (widthOf s.widths)) :: s.widths }

/-- A letter of a switch. -/
def switch? (c : Char) : Option (Mode → Mode) :=
  match c with
  | 'i' => some fun m => { m with ignoreCase := true }
  | 'm' => some fun m => { m with multiline := true }
  | 's' => some fun m => { m with dotAll := true }
  | 'x' => some fun m => { m with verbose := true }
  | 'a' => some fun m => { m with ascii := true }
  | 'u' => some fun m => { m with unicode := true }
  | 't' => some fun m => { m with single := true }
  | _ => none

/-- Letters of switches with the first given: the switches, whether one of them is only for the
whole expression, and the token after them. -/
def switches : Nat → Char → Mode → Bool → Reader (Mode × Bool × Token)
  | 0, _, _, _ => fail
  | n + 1, c, mode, global => do
    match switch? c with
    | none => fail
    | some f =>
      let mode := f mode
      if mode.ascii ∧ mode.unicode then fail
      let global := global || c == 't'
      match ← demand with
      | .plain d =>
        if d = ')' ∨ d = '-' ∨ d = ':' then return (mode, global, .plain d)
        else switches n d mode global
      | _ => fail

/-- Letters of switches that are turned off, up to the colon. -/
def switchesOff : Nat → Char → Mode → Reader Mode
  | 0, _, _ => fail
  | n + 1, c, mode => do
    match switch? c with
    | none => fail
    | some f =>
      if c = 'a' ∨ c = 'u' ∨ c = 't' then fail
      match ← demand with
      | .plain d => if d = ':' then return f mode else switchesOff n d (f mode)
      | _ => fail

def Mode.union (a b : Mode) : Mode :=
  ⟨a.ignoreCase || b.ignoreCase, a.ascii || b.ascii, a.unicode || b.unicode,
    a.multiline || b.multiline, a.dotAll || b.dotAll, a.verbose || b.verbose,
    a.single || b.single⟩

def Mode.meets (a b : Mode) : Bool :=
  (a.ignoreCase && b.ignoreCase) || (a.multiline && b.multiline) || (a.dotAll && b.dotAll) ||
    (a.verbose && b.verbose)

/-- The mode inside a group that turns switches on and off. -/
def Mode.change (mode on off : Mode) : Mode :=
  let base :=
    if on.ascii || on.unicode then { mode with ascii := false, unicode := false } else mode
  let m := Mode.union base on
  ⟨m.ignoreCase && !off.ignoreCase, m.ascii, m.unicode, m.multiline && !off.multiline,
    m.dotAll && !off.dotAll, m.verbose && !off.verbose, m.single⟩

/-- What a group of switches does: turn them on for the whole, or inside the group. -/
inductive Switching where
  | whole (on : Mode)
  | inside (on off : Mode)

def switching (c : Char) : Reader Switching := do
  let n := (← get).rest.length + 1
  let turnOff (on : Mode) : Reader Switching := do
    match ← demand with
    | .plain d =>
      let off ← switchesOff n d {}
      if Mode.meets on off then fail else return .inside on off
    | _ => fail
  if c = '-' then turnOff {}
  else
    let (on, global, stop) ← switches n c {} false
    if stop = .plain ')' then return .whole on
    else if global then fail
    else if stop = .plain '-' then turnOff on
    else return .inside on {}

/-- What has been read of a sequence: its last item apart, for a repetition to take up. -/
inductive LastItem where
  | none
  | fixed (node : Node)
  | anchor (node : Node)
  | repeated (node : Node)

def LastItem.node : LastItem → Node
  | .none => .empty
  | .fixed n | .anchor n | .repeated n => n

/-- The count of a repetition in braces; `none` if the braces are no repetition. -/
def bounds : Reader (Option (Nat × Option Nat)) := do
  let saved := (← get).rest
  let lo ← takeAll isAsciiDigit
  let hi ← if ← accept ',' then takeAll isAsciiDigit else pure lo
  if !(← accept '\x7d') then
    modify fun s => { s with rest := saved }
    return none
  let least := (readNat lo).getD 0
  if !lo.isEmpty ∧ least ≥ greatestCount then throw .countTooLarge
  match readNat hi with
  | none => return some (least, none)
  | some most =>
    if most ≥ greatestCount then throw .countTooLarge
    if most < least then fail
    return some (least, some most)

def repeatItem (last : LastItem) (least : Nat) (most : Option Nat) : Reader LastItem := do
  match last with
  | .fixed node =>
    let greed ← if ← accept '?' then pure Greed.lazy
      else if ← accept '+' then pure Greed.possessive
      else pure Greed.greedy
    return .repeated (.rep greed least most node)
  | _ => fail

def isLayout (c : Char) : Bool := " \t\n\r\x0b\x0c".toList.contains c

/-- Passes over a comment up to the end of the line. -/
def skipLine : Nat → Reader Unit
  | 0 => return
  | n + 1 => do
    match ← take with
    | none => return
    | some t => if t = .plain '\n' then return else skipLine n

/-- Passes over a comment up to the closing parenthesis. -/
def skipComment : Nat → Reader Unit
  | 0 => fail
  | n + 1 => do
    if (← demand) = .plain ')' then return else skipComment n

/-- The group that a condition asks about, by name or by number. -/
def conditionGroup : Reader Nat := do
  let name ← nameUntil ')'
  if isName name then groupNamed name
  else
    match readInt name with
    | some n =>
      if n ≤ 0 ∨ n.toNat ≥ greatestGroup then fail
      modify fun s => { s with conditions := n.toNat :: s.conditions }
      return n.toNat
    | none => fail

mutual

/-- Alternatives. At the top their first one may start with switches for the whole. -/
def alternatives (top : Bool) : (fuel : Nat) → Mode → (first : Bool) → Reader Node
  | 0, _, _ => fail
  | fuel + 1, mode, first => do
    let node ← sequence fuel mode (top && first) .empty .none
    if ← accept '|' then
      let whole := (← get).mode
      let mode := if top then whole else mode
      return .alt node (← alternatives top fuel mode false)
    else return node

/-- A sequence of items, of which `done` and the last one have been read. -/
def sequence : (fuel : Nat) → Mode → (first : Bool) → (done : Node) → LastItem → Reader Node
  | 0, _, _, _, _ => fail
  | fuel + 1, mode, first, done, last => do
    let append (next : LastItem) : Reader Node :=
      sequence fuel mode first (match last with
        | .none => done
        | _ => .seq done last.node) next
    match ← peek with
    | none => return .seq done last.node
    | some .dangling => fail
    | some (.escaped c) =>
      let _ ← take
      match ← escapeNode mode c with
      | .anchor m a => append (.anchor (.anchor m a))
      | node => append (.fixed node)
    | some (.plain c) =>
      if c = '|' ∨ c = ')' then return .seq done last.node
      let _ ← take
      if mode.verbose ∧ isLayout c then sequence fuel mode first done last
      else if mode.verbose ∧ c = '#' then
        skipLine ((← get).rest.length + 1)
        sequence fuel mode first done last
      else if c = '[' then
        let negated ← accept '^'
        let items ← setItems ((← get).rest.length + 1) []
        append (.fixed (.set mode negated items))
      else if c = '?' then
        sequence fuel mode first done (← repeatItem last 0 (some 1))
      else if c = '*' then
        sequence fuel mode first done (← repeatItem last 0 none)
      else if c = '+' then
        sequence fuel mode first done (← repeatItem last 1 none)
      else if c = '\x7b' then
        if (← peek) = some (.plain '\x7d') then append (.fixed (.literal mode c.toNat))
        else
          match ← bounds with
          | none => append (.fixed (.literal mode c.toNat))
          | some (least, most) =>
            sequence fuel mode first done (← repeatItem last least most)
      else if c = '.' then append (.fixed (.anyChar mode))
      else if c = '^' then append (.anchor (.anchor mode .lineStart))
      else if c = '$' then append (.anchor (.anchor mode .lineEnd))
      else if c = '(' then
        if ← accept '?' then
          match ← demand with
          | .plain '#' =>
            skipComment ((← get).rest.length + 1)
            sequence fuel mode first done last
          | .plain k =>
            if switch? k |>.isSome then
              match ← switching k with
              | .whole on =>
                let fresh := match last with
                  | .none => true
                  | _ => false
                if !(first && fresh) then fail
                modify fun s => { s with mode := Mode.union s.mode on }
                let whole := (← get).mode
                sequence fuel whole first done last
              | .inside on off => append (.fixed (← group fuel (Mode.change mode on off)))
            else if k = '-' then
              match ← switching k with
              | .whole _ => fail
              | .inside on off => append (.fixed (← group fuel (Mode.change mode on off)))
            else append (.fixed (← special fuel mode k))
          | _ => fail
        else append (.fixed (← captured fuel mode none))
      else append (.fixed (.literal mode c.toNat))

/-- The inside of a group that is not captured, with its closing parenthesis. -/
def group : (fuel : Nat) → Mode → Reader Node
  | 0, _ => fail
  | fuel + 1, mode => do
    let body ← nested 2 (alternatives false fuel mode false)
    expect ')'
    return body

def captured : (fuel : Nat) → Mode → Option (List Char) → Reader Node
  | 0, _, _ => fail
  | fuel + 1, mode, name => do
    let g ← openGroup name
    let body ← nested 2 (alternatives false fuel mode false)
    expect ')'
    closeGroup g body
    return .capture g body

/-- A group marked by a character after the question mark. -/
def special : (fuel : Nat) → Mode → Char → Reader Node
  | 0, _, _ => fail
  | fuel + 1, mode, k => do
    if k = 'P' then
      if ← accept '<' then
        let name ← nameUntil '>'
        if !isName name then fail
        captured fuel mode (some name)
      else if ← accept '=' then
        let name ← nameUntil ')'
        if !isName name then fail
        backreference mode (← groupNamed name)
      else fail
    else if k = ':' then group fuel mode
    else if k = '>' then return .atomic (← group fuel mode)
    else if k = '=' then return .look true false 0 (← group fuel mode)
    else if k = '!' then return .look true true 0 (← group fuel mode)
    else if k = '<' then
      let t ← demand
      if t = .plain '=' ∨ t = .plain '!' then
        let outer := (← get).behindFrom
        if outer.isNone then
          modify fun s => { s with behindFrom := some s.groups }
        let body ← nested 2 (alternatives false fuel mode false)
        if outer.isNone then
          modify fun s => { s with behindFrom := none }
        expect ')'
        let w := body.width (widthOf (← get).widths)
        if w.low ≠ w.high then
          modify fun s => { s with loose := true }
        return .look false (t = .plain '!') w.low body
      else fail
    else if k = '(' then
      let g ← conditionGroup
      checkBehind g
      let yes ← nested 1 (sequence fuel mode false .empty .none)
      let no ← if ← accept '|' then
          let no ← nested 1 (sequence fuel mode false .empty .none)
          if (← peek) = some (.plain '|') then fail
          pure no
        else pure .empty
      expect ')'
      return .branchOn g yes no
    else fail

end

end Reader

/-- The structure of a whole expression, with characters called by these names. -/
def read? (characters : CharacterNames) (cs : List Char) : Except ReadError Node := do
  let ts := tokens cs
  if ts.head? = some .dangling then throw .malformed
  let (node, s) ← (Reader.alternatives true (4 * ts.length + 4) {} true).run
    { rest := ts, characters }
  if s.mode.ascii ∧ s.mode.unicode then throw .conflictingModes
  if !s.rest.isEmpty then throw .malformed
  if s.conditions.any (s.groups ≤ ·) then throw .malformed
  if callRoom < node.calls + 1 then throw .tooDeep
  if s.loose ∨ (s.mode.single ∧ node.repeats) then throw .malformed
  return node

end RecordQuery.Pattern
