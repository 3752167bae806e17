import RecordQuery.Pattern.Matcher
import RecordQuery.Store.Column
import RecordQuery.Store.Like
import RecordQuery.Store.Predicate

/-!
# Tables

A table is a list of columns and a list of rows. Conditions on its rows are first brought into the
form of the store and then decided in three-valued logic: a comparison with an absent value is
neither true nor false.

* `Table.condition?` brings a condition into the form of the store, `Condition.truth` decides it.
* `Table.run` answers a query: the rows of a slice in an order, and the number of all that satisfy
  the conditions if it is asked for. It fails if a row of the slice cannot be read.
-/

namespace RecordQuery.Store

/-- True, false or, if absent, unknown. -/
abbrev Truth := Option Bool

namespace Truth

def and : Truth → Truth → Truth
  | some false, _ => some false
  | _, some false => some false
  | some true, some true => some true
  | _, _ => none

def or : Truth → Truth → Truth
  | some true, _ => some true
  | _, some true => some true
  | some false, some false => some false
  | _, _ => none

def not : Truth → Truth
  | some b => some !b
  | none => none

end Truth

/-- The cells of a row by the names of their columns. -/
abbrev Row := List (String × Cell)

def Row.cell (row : Row) (name : String) : Cell := (row.lookup name).getD .null

/-- A condition in the form in which the store decides it. -/
inductive Condition where
  | constant (truth : Bool)
  | isNull (column : String)
  | isNotNull (column : String)
  | compare (op : Comparison) (column : String) (operand : Cell)
  | between (column : String) (low high : Cell)
  | member (negated : Bool) (column : String) (operands : List Cell)
  | like (folded : Bool) (column : String) (pattern : List Char)
  | matching (column : String) (node : Option Pattern.Node)
  | and (p q : Condition)
  | or (p q : Condition)

def Comparison.holds : Comparison → Ordering → Bool
  | .eq, o => o == .eq
  | .ne, o => o != .eq
  | .lt, o => o == .lt
  | .le, o => o != .gt
  | .gt, o => o == .gt
  | .ge, o => o != .lt

namespace Condition

def compareCells (op : Comparison) (a b : Cell) : Truth := (a.compare? b).map op.holds

/-- Equality with one of several cells. -/
def anyEqual (a : Cell) (operands : List Cell) : Truth :=
  operands.foldr (fun b t => Truth.or (compareCells .eq a b) t) (some false)

/-- Whether a row satisfies the condition. -/
def truth (row : Row) : Condition → Truth
  | constant b => some b
  | isNull column => some (row.cell column).isNull
  | isNotNull column => some !(row.cell column).isNull
  | compare op column operand => compareCells op (row.cell column) operand
  | between column low high =>
    Truth.and (compareCells .ge (row.cell column) low) (compareCells .le (row.cell column) high)
  | member negated column operands =>
    let t := anyEqual (row.cell column) operands
    if negated then t.not else t
  | like folded column pattern =>
    match row.cell column with
    | .null => none
    | c => some (Like.accepts folded pattern c.textChars)
  | matching column node =>
    match row.cell column, node with
    | .null, _ => none
    | c, some node => some (Pattern.search node c.textChars)
    | _, none => none
  | and p q => Truth.and (p.truth row) (q.truth row)
  | or p q => Truth.or (p.truth row) (q.truth row)

/-- The store cannot decide the condition for the row: an expression that is none, a number where a
text is wanted, or a pattern that is too long. -/
def breaks (row : Row) : Condition → Bool
  | like _ _ pattern => !Like.takes pattern
  | matching column node =>
    match row.cell column, node with
    | .null, _ => false
    | .text _, some _ => false
    | _, _ => true
  | and p q => p.breaks row || (p.truth row == some true && q.breaks row)
  | or p q => p.breaks row || q.breaks row
  | _ => false

def holds (row : Row) (c : Condition) : Bool := c.truth row == some true

end Condition

/-- A key of an order. -/
structure SortKey where
  column : String
  direction : Direction
deriving DecidableEq, Repr

/-- The order of two cells under a direction: absent values are first when ascending. -/
def Direction.order (d : Direction) (a b : Cell) : Ordering :=
  match d with
  | .asc => a.order b
  | .desc => b.order a

/-- The order of two rows: by the first key in which they differ. -/
def compareRows : List SortKey → Row → Row → Ordering
  | [], _, _ => .eq
  | k :: keys, a, b =>
    (Direction.order k.direction (a.cell k.column) (b.cell k.column)).then (compareRows keys a b)

/-- One read of a store. The continuation condition narrows the rows of the slice, not their
count. -/
structure StoreQuery where
  predicates : List Predicate := []
  after : Option Predicate := none
  orderBy : List SortKey := []
  offset : Nat := 0
  limit : Int := 20
  withTotal : Bool := false
  timeout : Value := .null
deriving Repr

structure StoreReply where
  rows : List Row := []
  total : Option Nat := none
deriving DecidableEq, Repr

/-- Why a store gives no reply. -/
inductive StoreFailure where
  | timeout
  | broken (detail : String)
  /-- The store has said itself what went wrong. -/
  | classified (detail : String)
deriving DecidableEq, Repr

structure Table where
  columns : List Column
  rows : List Row := []
  /-- The names by which expressions call characters. -/
  characterNames : Pattern.CharacterNames := Pattern.characterNamed?

namespace Table

def type? (t : Table) (name : String) : Option ColumnType :=
  (t.columns.find? fun c => c.name == name).map (·.type)

/-- An operand as a cell that compares with the column. -/
def operand? (t : Table) (column : String) (v : Value) : Option Cell := do
  let type ← t.type? column
  return (← type.bind? v).toward type.affinity

def expressionOf? (t : Table) (v : Value) : Option Pattern.Node := do
  let s ← v.text?
  (Pattern.read? t.characterNames s.toList).toOption

/-- The pattern of a text in its place. -/
def likePattern (place : Placement) (text : String) : List Char :=
  let body := Like.escape text.toList
  match place with
  | .anywhere => '%' :: body ++ ['%']
  | .atStart => body ++ ['%']
  | .atEnd => '%' :: body

/-- The condition in the form of the store, if it has one for all the operands. -/
def condition? (t : Table) : Predicate → Option Condition
  | .always => some (.constant true)
  | .never => some (.constant false)
  | .isNull column => some (.isNull column)
  | .isNotNull column => some (.isNotNull column)
  | .compare op column v => (t.operand? column v).map (.compare op column)
  | .between column low high => do
    return .between column (← t.operand? column low) (← t.operand? column high)
  | .member negated column values =>
    (values.mapM (t.operand? column)).map (.member negated column)
  | .contains folded place column text =>
    (t.operand? column (.text text)).map fun _ => .like folded column (likePattern place text)
  | .pattern column v => (t.operand? column v).map fun _ => .matching column (t.expressionOf? v)
  | .and p q => do return .and (← t.condition? p) (← t.condition? q)
  | .or p q => do return .or (← t.condition? p) (← t.condition? q)

/-- All the conditions together. -/
def allOf (conditions : List Condition) : Condition :=
  conditions.foldr .and (.constant true)

def refused : StoreFailure := .broken "operand"

def unreadable : StoreFailure := .broken "value"

/-- The rows that satisfy the conditions. Every row is held against them, in their order and up to
the first that is not true of it. -/
def select (t : Table) (predicates : List Predicate) : Except StoreFailure (List Row) :=
  match predicates.mapM t.condition? with
  | none => .error refused
  | some conditions =>
    let c := allOf conditions
    if t.rows.any c.breaks then .error refused else .ok (t.rows.filter c.holds)

/-- Rows in an order; equal ones stay as they are. -/
def sort (keys : List SortKey) (rows : List Row) : List Row :=
  rows.mergeSort fun a b => compareRows keys a b != .gt

/-- The number of rows that satisfy the conditions, if it is asked for. -/
def count? (t : Table) (q : StoreQuery) : Except StoreFailure (Option Nat) :=
  if q.withTotal then (t.select q.predicates).map fun rows => some rows.length else .ok none

/-- All cells of the row can be read, also those of columns that nobody sees. -/
def reads (t : Table) (row : Row) : Bool :=
  t.columns.all fun c => (c.type.read? (row.cell c.name)).isSome

/-- Gives rows, all of which are read on the way. -/
def fetch (t : Table) (rows : List Row) : Except StoreFailure (List Row) :=
  if rows.all t.reads then .ok rows else .error unreadable

/-- The rows of the slice. A query that asks for no rows does not look for any. -/
def slice (t : Table) (q : StoreQuery) : Except StoreFailure (List Row) :=
  if q.limit ≤ 0 then .ok []
  else if (q.offset : Int) > greatestInteger ∨ q.limit > greatestInteger then .error refused
  else do
    let rows ← t.select (q.predicates ++ q.after.toList)
    t.fetch (((sort q.orderBy rows).drop q.offset).take q.limit.toNat)

/-- The reply to a query. -/
def run (t : Table) (q : StoreQuery) : Except StoreFailure StoreReply := do
  let total ← t.count? q
  return { rows := ← t.slice q, total }

end Table
end RecordQuery.Store
