import RecordQuery.Proofs.RowOrder
import RecordQuery.Proofs.Selection

/-!
# Coming after a position

The condition of coming after a position is written as one alternative for every key. For the store
it says the same as the order by which the rows are sorted: absent values are below all others,
whatever the direction.

* `Table.Stands`: what a value of a position is to a table.
* `comparePosition`: the order of a position and a row.
* `Table.after_follows`: for values that can be compared, the condition goes through the columns one
  by one.
* `Table.after_accepts`: the condition accepts exactly the rows that come strictly after.
* `Table.after_eq_error`: there is no such condition for a position with a boolean.
-/

namespace RecordQuery.Store

/-! ## Positions -/

/-- The order of a position, given by its cells, and a row. -/
def comparePosition : List SortKey → List Cell → Row → Ordering
  | k :: keys, c :: cs, row =>
    (match k.direction with
      | .asc => Cell.compareRank c (row.cell k.column)
      | .desc => Cell.compareRank (row.cell k.column) c).then (comparePosition keys cs row)
  | _, _, _ => .eq

theorem comparePosition_cons (k : SortKey) (keys : List SortKey) (c : Cell) (cells : List Cell)
    (row : Row) : comparePosition (k :: keys) (c :: cells) row
      = (Direction.compareRank k.direction c (row.cell k.column)).then
        (comparePosition keys cells row) := by
  obtain ⟨column, direction⟩ := k
  cases direction <;> rfl

/-- A position at a row compares like the row. -/
theorem comparePosition_eq {keys : List SortKey} {cells : List Cell} {row : Row}
    (h : List.Forall₂ (fun k c => Cell.compareRank (row.cell k.column) c = .eq) keys cells)
    (other : Row) : comparePosition keys cells other = compareRanks keys row other := by
  induction h with
  | nil => rfl
  | @cons k c keys cells hc _ ih =>
    rw [comparePosition_cons, compareRanks_cons, ih, SortKey.compare,
      Std.TransCmp.congr_left (Direction.compareRank_eq_iff.2 hc)]

/-- Lexicographic comparisons are transitive in their first part if they are in the second. -/
theorem then_lt_of_isLE {α : Type} (cmp : α → α → Ordering) [Std.TransCmp cmp] {x y z : α}
    {p q r : Ordering} (h : (cmp x y).then p = .lt) (hle : ((cmp y z).then q).isLE = true)
    (hrest : p = .lt → q.isLE = true → r = .lt) : (cmp x z).then r = .lt := by
  cases hxy : cmp x y with
  | gt => simp [hxy] at h
  | eq =>
    rw [hxy, Ordering.eq_then] at h
    rw [Std.TransCmp.congr_left hxy]
    cases hyz : cmp y z with
    | lt => rfl
    | eq =>
      rw [hyz, Ordering.eq_then] at hle
      exact hrest h hle
    | gt => simp [hyz] at hle
  | lt =>
    have hyz : (cmp y z).isLE = true := by
      cases hyz : cmp y z with
      | gt => simp [hyz] at hle
      | _ => rfl
    rw [Std.TransCmp.lt_of_lt_of_isLE hxy hyz]
    rfl

/-- What a row is after, the rows that do not come before it are after too. -/
theorem comparePosition_trans {keys : List SortKey} {cells : List Cell} {a b : Row}
    (h : comparePosition keys cells a = .lt) (hle : (compareRanks keys a b).isLE = true) :
    comparePosition keys cells b = .lt := by
  induction keys generalizing cells with
  | nil => cases h
  | cons k keys ih =>
    cases cells with
    | nil => cases h
    | cons c cells =>
      rw [comparePosition_cons] at h ⊢
      rw [compareRanks_cons] at hle
      exact then_lt_of_isLE (Direction.compareRank k.direction) h hle ih

/-- The value has the cell as its form in the column. Only values that have an order stand for a
cell: booleans do not. -/
inductive Table.Stands (t : Table) (column : String) : Value → Cell → Prop where
  | absent : t.Stands column .null .null
  | present {v : Value} {c : Cell} (bool : ∀ b, v ≠ .bool b) (null : v ≠ .null)
      (operand : t.operand? column v = some c) (cell : c ≠ .null) (nan : c.isNan = false) :
      t.Stands column v c

/-- The values of a position have these cells as their forms. -/
inductive Table.Placed (t : Table) : List SortCriterion → List Value → List Cell → Prop where
  | nil : t.Placed [] [] []
  | cons {s : SortCriterion} {v : Value} {c : Cell} {sort : List SortCriterion}
      {position : List Value} {cells : List Cell} (head : t.Stands s.field v c)
      (tail : t.Placed sort position cells) :
      t.Placed (s :: sort) (v :: position) (c :: cells)

namespace Table

variable {t : Table}

/-! ## Conditions on one column -/

/-- The condition has a form in the store and is always decided. -/
structure Sturdy (t : Table) (p : Predicate) : Prop where
  plain : p.isPlain = true
  form : (t.condition? p).isSome = true

theorem form_and (p q : Predicate) : (t.condition? (.and p q)).isSome
    = ((t.condition? p).isSome && (t.condition? q).isSome) := by
  cases hp : t.condition? p <;> cases hq : t.condition? q <;> simp [condition?, hp, hq]

theorem form_or (p q : Predicate) : (t.condition? (.or p q)).isSome
    = ((t.condition? p).isSome && (t.condition? q).isSome) := by
  cases hp : t.condition? p <;> cases hq : t.condition? q <;> simp [condition?, hp, hq]

theorem Sturdy.and {p q : Predicate} (hp : t.Sturdy p) (hq : t.Sturdy q) :
    t.Sturdy (.and p q) where
  plain := by rw [Predicate.isPlain, hp.plain, hq.plain, Bool.and_self]
  form := by rw [form_and, hp.form, hq.form, Bool.and_self]

theorem Sturdy.or {p q : Predicate} (hp : t.Sturdy p) (hq : t.Sturdy q) :
    t.Sturdy (.or p q) where
  plain := by rw [Predicate.isPlain, hp.plain, hq.plain, Bool.and_self]
  form := by rw [form_or, hp.form, hq.form, Bool.and_self]

theorem accepts_or {p q : Predicate} (hp : (t.condition? p).isSome = true)
    (hq : (t.condition? q).isSome = true) (row : Row) :
    t.accepts (.or p q) row = (t.accepts p row || t.accepts q row) := by
  obtain ⟨c, hc⟩ := Option.isSome_iff_exists.1 hp
  obtain ⟨d, hd⟩ := Option.isSome_iff_exists.1 hq
  have h : t.condition? (.or p q) = some (.or c d) := by simp [condition?, hc, hd]
  rw [accepts_of_condition? h, accepts_of_condition? hc, accepts_of_condition? hd,
    Condition.holds_or]

theorem sturdy_isNull (column : String) : t.Sturdy (.isNull column) := ⟨rfl, rfl⟩

theorem accepts_isNull (column : String) (row : Row) :
    t.accepts (.isNull column) row = (row.cell column).isNull := by
  rw [accepts_of_condition? (c := .isNull column) rfl]
  cases h : (row.cell column).isNull <;> simp [Condition.holds, Condition.truth, h]

theorem sturdy_compare {op : Comparison} {column : String} {v : Value} {c : Cell}
    (h : t.operand? column v = some c) : t.Sturdy (.compare op column v) :=
  ⟨rfl, by simp [condition?, h]⟩

theorem accepts_compare {op : Comparison} {column : String} {v : Value} {c : Cell}
    (h : t.operand? column v = some c) (row : Row) :
    t.accepts (.compare op column v) row
      = (((row.cell column).compare? c).map op.holds == some true) := by
  have hc : t.condition? (.compare op column v) = some (.compare op column c) := by
    simp [condition?, h]
  rw [accepts_of_condition? hc]
  rfl

/-- Nothing compares with a value that has no cell. -/
theorem accepts_compare_null {op : Comparison} {column : String} {v : Value}
    (h : t.operand? column v = some .null) (row : Row) :
    t.accepts (.compare op column v) row = false := by
  rw [accepts_compare h]
  cases row.cell column <;> rfl

/-- With a cell that is not absent, the order of sorting is that of comparisons, except that absent
cells come first. -/
theorem compare?_eq_order {a c : Cell} (hc : c ≠ .null) (hcn : c.isNan = false)
    (han : a.isNan = false) :
    a.compare? c = if a.isNull then none else some (Cell.compareRank a c) := by
  rw [← Cell.order_eq_compareRank han hcn]
  cases a with
  | null => rfl
  | integer m =>
    cases c with
    | null => exact absurd rfl hc
    | real x =>
      have hx : x.isNan = false := hcn
      simp [Cell.compare?, Cell.isNull, Cell.order, compareInt?_eq hx]
    | _ => rfl
  | real x =>
    have hx : x.isNan = false := han
    cases c with
    | null => exact absurd rfl hc
    | integer n => simp [Cell.compare?, Cell.isNull, Cell.order, compareInt?_eq hx]
    | real y =>
      have hy : y.isNan = false := hcn
      simp [Cell.compare?, Cell.isNull, Cell.order, binary64_compare?_eq hx hy]
    | text s => rfl
  | text s =>
    cases c with
    | null => exact absurd rfl hc
    | _ => rfl

theorem compareRank_null_left {c : Cell} (hc : c ≠ .null) : Cell.compareRank .null c = .lt := by
  cases c with
  | null => exact absurd rfl hc
  | real x =>
    have : compare 0 (numberRank x).1 = .lt := compare_lt_iff_lt.2 (Cell.numberRank_bounds x).1
    rw [Cell.compareRank_eq]
    simp only [Cell.rank, this, Ordering.then]
  | _ => rfl

theorem isNull_iff {c : Cell} : c.isNull = true ↔ c = .null := by
  cases c <;> simp [Cell.isNull]

/-- Agreeing with a value that is not absent is a comparison. -/
theorem equal_eq {column : String} {v : Value} (hnull : v ≠ .null) :
    Predicate.equal column v = .compare .eq column v := by
  cases v <;> first | rfl | exact absurd rfl hnull

/-- Agreeing with a value whose cell is not absent is being level with the cell. -/
theorem equal_accepts_present {column : String} {v : Value} (hnull : v ≠ .null) {c : Cell}
    (operand : t.operand? column v = some c) (cell : c ≠ .null) (nan : c.isNan = false) {row : Row}
    (hrow : (row.cell column).isNan = false) :
    t.accepts (.equal column v) row = (Cell.compareRank c (row.cell column) == .eq) := by
  rw [equal_eq hnull, accepts_compare operand, compare?_eq_order cell nan hrow,
    Cell.compareRank_swap c]
  by_cases hnull : row.cell column = .null
  · rw [hnull, compareRank_null_left cell]
    rfl
  · rw [if_neg (fun h => hnull (isNull_iff.1 h))]
    cases Cell.compareRank (row.cell column) c <;> rfl

/-- Agreeing with an absent value is being absent. -/
theorem equal_accepts_null (column : String) (row : Row) :
    t.accepts (.equal column .null) row = (Cell.compareRank .null (row.cell column) == .eq) := by
  rw [Predicate.equal, accepts_isNull]
  by_cases hnull : row.cell column = .null
  · rw [hnull]
    rfl
  · rw [compareRank_null_left hnull, Bool.eq_false_iff.2 (fun h => hnull (isNull_iff.1 h))]
    rfl

/-- Agreeing with a value of a position is being level with its cell. -/
theorem equal_accepts {column : String} {v : Value} {c : Cell} (h : t.Stands column v c)
    {row : Row} (hrow : (row.cell column).isNan = false) :
    t.accepts (.equal column v) row = (Cell.compareRank c (row.cell column) == .eq) := by
  cases h with
  | absent => exact equal_accepts_null column row
  | present bool null operand cell nan => exact equal_accepts_present null operand cell nan hrow

theorem accepts_isNotNull (column : String) (row : Row) :
    t.accepts (.isNotNull column) row = !(row.cell column).isNull := by
  rw [accepts_of_condition? (c := .isNotNull column) rfl]
  simp only [Condition.holds, Condition.truth]
  cases (row.cell column).isNull <;> rfl

theorem compareRank_null_right (c : Cell) : Cell.compareRank c .null ≠ .lt := by
  intro hlt
  by_cases hnull : c = .null
  · rw [hnull, Cell.compareRank_self] at hlt
    cases hlt
  · rw [Cell.compareRank_swap, compareRank_null_left hnull] at hlt
    cases hlt

/-- Going beyond an absent value upwards is not being absent. -/
theorem isNotNull_accepts (column : String) (row : Row) :
    t.accepts (.isNotNull column) row = (Cell.compareRank .null (row.cell column) == .lt) := by
  rw [accepts_isNotNull]
  by_cases hnull : row.cell column = .null
  · rw [hnull]
    rfl
  · rw [compareRank_null_left hnull, Bool.eq_false_iff.2 (fun h => hnull (isNull_iff.1 h))]
    rfl

/-- Nothing is beyond an absent value downwards. -/
theorem never_accepts (column : String) (row : Row) :
    t.accepts .never row = (Cell.compareRank (row.cell column) .null == .lt) := by
  rw [accepts_of_condition? (c := .constant false) rfl]
  cases hc : Cell.compareRank (row.cell column) .null with
  | lt => exact absurd hc (compareRank_null_right _)
  | eq => rfl
  | gt => rfl

section Present

variable {column : String} {v : Value} {c : Cell} {row : Row}

/-- Going beyond a value upwards is being greater. -/
theorem greater_accepts (operand : t.operand? column v = some c) (cell : c ≠ .null)
    (nan : c.isNan = false) (hrow : (row.cell column).isNan = false) :
    t.accepts (.compare .gt column v) row = (Cell.compareRank c (row.cell column) == .lt) := by
  rw [accepts_compare operand, compare?_eq_order cell nan hrow, Cell.compareRank_swap c]
  by_cases hnull : row.cell column = .null
  · rw [hnull, compareRank_null_left cell]
    rfl
  · rw [if_neg (fun h => hnull (isNull_iff.1 h))]
    cases Cell.compareRank (row.cell column) c <;> rfl

/-- Going beyond a value downwards is being less or absent. -/
theorem less_accepts (operand : t.operand? column v = some c) (cell : c ≠ .null)
    (nan : c.isNan = false) (hrow : (row.cell column).isNan = false) :
    t.accepts (.or (.compare .lt column v) (.isNull column)) row
      = (Cell.compareRank (row.cell column) c == .lt) := by
  rw [accepts_or (sturdy_compare operand).form (sturdy_isNull column).form,
    accepts_compare operand, accepts_isNull, compare?_eq_order cell nan hrow]
  by_cases hnull : row.cell column = .null
  · rw [hnull, compareRank_null_left cell]
    rfl
  · rw [if_neg (fun h => hnull (isNull_iff.1 h)),
      Bool.eq_false_iff.2 (fun h => hnull (isNull_iff.1 h))]
    cases Cell.compareRank (row.cell column) c <;> rfl

end Present

/-- Values that are neither absent nor booleans can be compared with. -/
theorem ordered_eq {column : String} {v : Value} (hbool : ∀ b, v ≠ .bool b) (hnull : v ≠ .null)
    (op : Comparison) : Predicate.ordered op column v = .ok (.compare op column v) := by
  cases v <;> first | rfl | exact absurd rfl hnull | exact absurd rfl (hbool _)

theorem beyond_asc {column : String} {v : Value} (hbool : ∀ b, v ≠ .bool b) (hnull : v ≠ .null) :
    Predicate.beyond column .asc v = .ok (.compare .gt column v) := by
  cases v <;> first | exact ordered_eq hbool hnull .gt | exact absurd rfl hnull

theorem beyond_desc {column : String} {v : Value} (hbool : ∀ b, v ≠ .bool b) (hnull : v ≠ .null) :
    Predicate.beyond column .desc v = .ok (.or (.compare .lt column v) (.isNull column)) := by
  have h : Predicate.beyond column .desc v
      = (Predicate.ordered .lt column v).map fun p => .or p (.isNull column) := by
    cases v <;> first | rfl | exact absurd rfl hnull
  rw [h, ordered_eq hbool hnull]
  rfl

/-- Going beyond a value of a position is coming after its cell in the direction. -/
theorem beyond_accepts {column : String} (direction : Direction) {v : Value} {c : Cell}
    (h : t.Stands column v c) :
    ∃ p, Predicate.beyond column direction v = .ok p ∧
      ∀ row : Row, (row.cell column).isNan = false →
        t.accepts p row = (Direction.compareRank direction c (row.cell column) == .lt) := by
  cases h with
  | absent =>
    cases direction with
    | asc => exact ⟨.isNotNull column, rfl, fun row _ => isNotNull_accepts column row⟩
    | desc => exact ⟨.never, rfl, fun row _ => never_accepts column row⟩
  | present bool null operand cell nan =>
    cases direction with
    | asc =>
      exact ⟨_, beyond_asc bool null, fun row hrow => greater_accepts operand cell nan hrow⟩
    | desc =>
      exact ⟨_, beyond_desc bool null, fun row hrow => less_accepts operand cell nan hrow⟩

/-! ## Conditions on all columns -/

theorem closed_sturdy (t : Table) : Predicate.Closed t.Sturdy where
  always := ⟨rfl, rfl⟩
  and := Sturdy.and
  or := Sturdy.or

theorem accepts_foldr_and (ps : List Predicate) (q : Predicate) (row : Row) :
    t.accepts (ps.foldr .and q) row = ((ps.all fun p => t.accepts p row) && t.accepts q row) := by
  induction ps with
  | nil => rfl
  | cons p ps ih => rw [List.foldr_cons, accepts_and, ih, List.all_cons, Bool.and_assoc]

/-- The alternatives of a condition that has a form have forms. -/
theorem forms_of_disjunction {ps : List Predicate}
    (h : (t.condition? (Predicate.disjunction ps)).isSome = true) :
    ∀ p ∈ ps, (t.condition? p).isSome = true := by
  induction ps with
  | nil =>
    intro p hp
    cases hp
  | cons p ps ih =>
    cases ps with
    | nil =>
      intro q hq
      exact List.mem_singleton.1 hq ▸ h
    | cons q qs =>
      change (t.condition? (.or p (Predicate.disjunction (q :: qs)))).isSome = true at h
      rw [form_or, Bool.and_eq_true] at h
      intro r hr
      rcases List.mem_cons.1 hr with rfl | hr
      · exact h.1
      · exact ih h.2 r hr

theorem accepts_disjunction {ps : List Predicate} (hne : ps ≠ [])
    (h : (t.condition? (Predicate.disjunction ps)).isSome = true) (row : Row) :
    t.accepts (Predicate.disjunction ps) row = ps.any fun p => t.accepts p row := by
  induction ps with
  | nil => exact absurd rfl hne
  | cons p ps ih =>
    cases ps with
    | nil => simp [Predicate.disjunction]
    | cons q qs =>
      change (t.condition? (.or p (Predicate.disjunction (q :: qs)))).isSome = true at h
      change t.accepts (.or p (Predicate.disjunction (q :: qs))) row = _
      rw [form_or, Bool.and_eq_true] at h
      rw [accepts_or h.1 h.2, List.any_cons, ih (by simp) h.2]

/-- The value can be compared with the column: it is absent, or has a form there and an order. -/
inductive Comparable (t : Table) (column : String) : Value → Prop where
  | absent : t.Comparable column .null
  | present {v : Value} {c : Cell} (bool : ∀ b, v ≠ .bool b) (null : v ≠ .null)
      (operand : t.operand? column v = some c) : t.Comparable column v

theorem Comparable.equal {column : String} {v : Value} (h : t.Comparable column v) :
    t.Sturdy (.equal column v) := by
  cases h with
  | absent => exact sturdy_isNull column
  | present bool null operand => exact equal_eq null ▸ sturdy_compare operand

theorem Comparable.beyond {column : String} {v : Value} (h : t.Comparable column v)
    (direction : Direction) :
    ∃ p, Predicate.beyond column direction v = .ok p ∧ t.Sturdy p := by
  cases h with
  | absent => cases direction <;> exact ⟨_, rfl, ⟨rfl, rfl⟩⟩
  | present bool null operand =>
    cases direction with
    | asc => exact ⟨_, beyond_asc bool null, sturdy_compare operand⟩
    | desc => exact ⟨_, beyond_desc bool null, (sturdy_compare operand).or (sturdy_isNull column)⟩

theorem Stands.comparable {column : String} {v : Value} {c : Cell} (h : t.Stands column v c) :
    t.Comparable column v := by
  cases h with
  | absent => exact .absent
  | present bool null operand => exact .present bool null operand

/-- The row agrees with a value in its column. -/
def level (t : Table) (column : String) (v : Value) (row : Row) : Bool :=
  t.accepts (.equal column v) row

/-- The row comes after a value in its column. -/
def past (t : Table) (s : SortCriterion) (v : Value) (row : Row) : Bool :=
  match Predicate.beyond s.field s.direction v with
  | .ok p => t.accepts p row
  | .error _ => false

theorem past_of_beyond {s : SortCriterion} {v : Value} {p : Predicate}
    (h : Predicate.beyond s.field s.direction v = .ok p) (row : Row) :
    t.past s v row = t.accepts p row := by
  rw [past, h]

/-- A row is past a value if it comes after the cell of the value in the direction. -/
theorem past_eq {s : SortCriterion} {v : Value} {c : Cell} (h : t.Stands s.field v c) {row : Row}
    (hrow : (row.cell s.field).isNan = false) :
    t.past s v row = (Direction.compareRank s.direction c (row.cell s.field) == .lt) := by
  obtain ⟨p, hp, haccepts⟩ := beyond_accepts s.direction h
  rw [past_of_beyond hp, haccepts row hrow]

/-- The row agrees with the first values of a position, and then comes after it. -/
def follows (t : Table) : List SortCriterion → List Value → Row → Bool
  | s :: sort, v :: position, row =>
    t.past s v row || (t.level s.field v row && t.follows sort position row)
  | _, _, _ => false

/-- The alternatives say: the row agrees with all that was passed, and then comes after. -/
theorem afterBranches_follows {sort : List SortCriterion} {position : List Value}
    (h : List.Forall₂ (fun s v => t.Comparable s.field v) sort position)
    (agreed : List Predicate) (hagreed : ∀ p ∈ agreed, t.Sturdy p) :
    ∃ branches, Predicate.afterBranches agreed sort position = .ok branches ∧
      branches.length = sort.length ∧ (∀ p ∈ branches, t.Sturdy p) ∧
      ∀ row : Row, (branches.any fun p => t.accepts p row)
        = ((agreed.all fun p => t.accepts p row) && t.follows sort position row) := by
  induction h generalizing agreed with
  | nil => exact ⟨[], rfl, rfl, by simp, fun row => by simp [follows]⟩
  | @cons s v sort position head tail ih =>
    obtain ⟨past, hpast, hsturdy⟩ := head.beyond s.direction
    have hagreed' : ∀ p ∈ agreed ++ [.equal s.field v], t.Sturdy p := by
      intro p hp
      rcases List.mem_append.1 hp with hp | hp
      · exact hagreed p hp
      · rw [List.mem_singleton.1 hp]
        exact head.equal
    obtain ⟨rest, hrest, hlength, hrestSturdy, hrestAccepts⟩ := ih _ hagreed'
    refine ⟨agreed.foldr .and past :: rest, ?_, by simp [hlength], ?_, ?_⟩
    · simp [Predicate.afterBranches, hpast, hrest, bind, Except.bind, pure, Except.pure]
    · intro p hp
      rcases List.mem_cons.1 hp with rfl | hp
      · exact t.closed_sturdy.foldr_and hagreed hsturdy
      · exact hrestSturdy p hp
    · intro row
      rw [List.any_cons, accepts_foldr_and, hrestAccepts row, List.all_append, List.all_cons,
        List.all_nil, follows, past_of_beyond hpast, level]
      cases agreed.all fun p => t.accepts p row <;> simp

/-- The condition of coming after a position of comparable values goes through the columns one by
one. -/
theorem after_follows {sort : List SortCriterion} {position : List Value} (hsort : sort ≠ [])
    (h : List.Forall₂ (fun s v => t.Comparable s.field v) sort position) :
    ∃ p, Predicate.after sort position = .ok p ∧ t.Sturdy p ∧
      ∀ row : Row, t.accepts p row = t.follows sort position row := by
  obtain ⟨branches, hbranches, hlength, hsturdy, haccepts⟩ :=
    afterBranches_follows h [] (by simp)
  have hne : branches ≠ [] := by
    intro hnil
    rw [hnil] at hlength
    exact hsort (List.length_eq_zero_iff.1 hlength.symm)
  have hwhole := t.closed_sturdy.disjunction hsturdy
  refine ⟨Predicate.disjunction branches, ?_, hwhole, ?_⟩
  · rw [Predicate.after, hbranches]
    rfl
  · intro row
    rw [accepts_disjunction hne hwhole.form, haccepts row]
    simp

theorem Placed.comparable {sort : List SortCriterion} {position : List Value} {cells : List Cell}
    (h : t.Placed sort position cells) :
    List.Forall₂ (fun s v => t.Comparable s.field v) sort position := by
  induction h with
  | nil => exact .nil
  | cons head _ ih => exact .cons head.comparable ih

/-- A row follows a placed position if it comes strictly after it in the order of sorting. -/
theorem Placed.follows_eq {sort : List SortCriterion} {position : List Value} {cells : List Cell}
    (h : t.Placed sort position cells) {row : Row} (hrow : row.Ordered (sortKeys sort)) :
    t.follows sort position row = (comparePosition (sortKeys sort) cells row == .lt) := by
  induction h with
  | nil => rfl
  | @cons s v c sort position cells head tail ih =>
    have hcell : (row.cell s.field).isNan = false := hrow ⟨s.field, s.direction⟩ List.mem_cons_self
    have htail : row.Ordered (sortKeys sort) := fun k hk => hrow k (List.mem_cons_of_mem _ hk)
    rw [follows, past_eq head hcell, level, equal_accepts head hcell, ih htail]
    have hlevel : (Cell.compareRank c (row.cell s.field) == .eq)
        = (Direction.compareRank s.direction c (row.cell s.field) == .eq) := by
      rw [Bool.eq_iff_iff, beq_iff_eq, beq_iff_eq, Direction.compareRank_eq_iff]
    rw [hlevel, sortKeys_cons, comparePosition_cons]
    cases Direction.compareRank s.direction c (row.cell s.field) <;> simp

/-- The condition of coming after a position accepts exactly the rows that come strictly after it
in the order of sorting. -/
theorem after_accepts {sort : List SortCriterion} {position : List Value} {cells : List Cell}
    (hsort : sort ≠ []) (h : t.Placed sort position cells) :
    ∃ p, Predicate.after sort position = .ok p ∧ t.Sturdy p ∧
      ∀ row : Row, row.Ordered (sortKeys sort) →
        t.accepts p row = (comparePosition (sortKeys sort) cells row == .lt) := by
  obtain ⟨p, hp, hsturdy, haccepts⟩ := after_follows hsort h.comparable
  exact ⟨p, hp, hsturdy, fun row hrow => (haccepts row).trans (h.follows_eq hrow)⟩

/-! ## Booleans -/

/-- A boolean of a position has no order. -/
theorem afterBranches_eq_error {sort : List SortCriterion} {position : List Value}
    (hlength : position.length = sort.length) {b : Bool} (hbool : .bool b ∈ position)
    (agreed : List Predicate) : ∃ f, Predicate.afterBranches agreed sort position = .error f := by
  induction sort generalizing position agreed with
  | nil =>
    rw [List.length_nil, List.length_eq_zero_iff] at hlength
    rw [hlength] at hbool
    cases hbool
  | cons s sort ih =>
    cases position with
    | nil => cases hlength
    | cons v position =>
      rw [Predicate.afterBranches]
      cases hpast : Predicate.beyond s.field s.direction v with
      | error f => exact ⟨f, rfl⟩
      | ok past =>
        have hrest : .bool b ∈ position := by
          rcases List.mem_cons.1 hbool with rfl | h
          · cases hd : s.direction <;> (rw [hd] at hpast; cases hpast)
          · exact h
        obtain ⟨f, hf⟩ := ih (Nat.succ.inj hlength) hrest (agreed ++ [.equal s.field v])
        exact ⟨f, by simp [hf, bind, Except.bind]⟩

theorem after_eq_error {sort : List SortCriterion} {position : List Value}
    (hlength : position.length = sort.length) {b : Bool} (hbool : .bool b ∈ position) :
    ∃ f, Predicate.after sort position = .error f := by
  obtain ⟨f, hf⟩ := afterBranches_eq_error hlength hbool []
  exact ⟨f, by rw [Predicate.after, hf]; rfl⟩

end Table
end RecordQuery.Store
