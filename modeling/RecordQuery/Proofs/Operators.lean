import RecordQuery.Model.Catalog
import RecordQuery.Proofs.Places
import RecordQuery.Proofs.ValueOrder

/-!
# Operators on rows

Filters on one column divide the rows of a table, and the operators agree on where: what one of them
accepts follows from what the others do. A row is accepted if the condition is true of it; where a
comparison with an absent value leaves it unknown, the row is not.

* `Table.admits?`: what a filter says of a row, if the store can take it; `Table.select_admits`: a
  query gives the rows that its filter accepts.
* `Table.admits?_comparison`: the six comparisons look at one order.
* `Table.OperatorLaws`, `Table.operatorLaws`: how the operators on a column go together.

Booleans have no order comparisons, and a list of no values excludes no row.
-/

namespace RecordQuery.Store

open RecordQuery.Number

/-! ## Operands -/

theorem ColumnType.ofFloat_ne_null {x : Binary64} (h : x.isNan = false) :
    ColumnType.ofFloat x ≠ .null := by
  simp [ofFloat, h]

theorem ColumnType.bind?_ne_null {type : ColumnType} {v : Value} {c : Cell} (hnull : v ≠ .null)
    (hnan : v.isNan = false) (h : type.bind? v = some c) : c ≠ .null := by
  cases v with
  | null => exact absurd rfl hnull
  | float x =>
    cases h
    exact ofFloat_ne_null hnan
  | decimal d =>
    obtain ⟨x, hx, rfl⟩ := Option.map_eq_some_iff.1 h
    refine ofFloat_ne_null ?_
    cases d with
    | nan => cases hnan
    | infinity negative => cases hx; rfl
    | finite negative c e =>
      cases hx
      exact Binary64.isNan_ofScientific _
  | int n =>
    simp only [bind?, integerCell?, Option.ite_none_right_eq_some, Option.some.injEq] at h
    exact h.2 ▸ Cell.noConfusion
  | text s =>
    simp only [bind?, Option.ite_none_left_eq_some, Option.some.injEq] at h
    exact h.2 ▸ Cell.noConfusion
  | list | tuple | mapping =>
    simp only [bind?, Option.ite_none_right_eq_some, Option.some.injEq] at h
    exact h.2 ▸ Cell.noConfusion
  | bool | date | datetime | uuid =>
    cases h
    exact Cell.noConfusion

theorem ColumnType.isNan_keepFloat (type : ColumnType) (x : Binary64) :
    (type.keepFloat x).isNan = false := by
  unfold keepFloat
  split
  · split
    · rfl
    · rename_i hnan
      exact (Cell.isNumber_ofReal (by simpa using hnan)).isNan
  · exact isNan_ofFloat x

/-- A column keeps no NaN. -/
theorem ColumnType.isNan_of_keep? {type : ColumnType} {v : Value} {c : Cell}
    (h : type.keep? v = some c) : c.isNan = false := by
  unfold keep? at h
  split at h
  · cases h
    exact Cell.isNan_toward rfl _
  · cases h
    rfl
  · obtain rfl := Option.some.inj h
    exact Cell.isNan_toward rfl _
  · obtain ⟨x, -, rfl⟩ := Option.map_eq_some_iff.1 h
    exact isNan_keepFloat _ x
  · obtain ⟨x, -, rfl⟩ := Option.map_eq_some_iff.1 h
    exact isNan_keepFloat _ x
  · cases h
    exact isNan_keepFloat _ _
  · obtain ⟨x, -, rfl⟩ := Option.map_eq_some_iff.1 h
    exact isNan_keepFloat _ x
  · cases h
    rfl
  · cases h
    rfl
  · exact isNan_of_bind? h

theorem Cell.toward_ne_null {c : Cell} (h : c ≠ .null) (a : Affinity) : c.toward a ≠ .null := by
  cases c with
  | null => exact absurd rfl h
  | text s => exact toward_text_ne_null s a
  | integer n => cases a <;> exact Cell.noConfusion
  | real x => cases a <;> exact Cell.noConfusion

namespace Table

variable {t : Table} {column : String} {row : Row} {v : Value}

/-- The store can compare the column with the operand, which is neither absent nor a NaN. -/
structure Storable (t : Table) (column : String) (v : Value) : Prop where
  present : v ≠ .null
  number : v.isNan = false
  form : (t.operand? column v).isSome = true

theorem Storable.exists_cell (h : t.Storable column v) :
    ∃ c, t.operand? column v = some c ∧ c ≠ .null ∧ c.isNan = false := by
  obtain ⟨c, hc⟩ := Option.isSome_iff_exists.1 h.form
  refine ⟨c, hc, ?_, isNan_of_operand? hc⟩
  obtain ⟨type, -, b, hb, rfl⟩ := operand?_eq_some.1 hc
  exact Cell.toward_ne_null (ColumnType.bind?_ne_null h.present h.number hb) _

/-! ## Filters -/

/-- Whether the condition that a filter puts on a column is true of a row. There is no answer if the
operator has no condition for the operand, or the store has no form for it. -/
def admits? (t : Table) (column : String) (row : Row) (op : Operator) (v : Value) :
    Option Bool := do
  let p ← (Predicate.criterion? column { field := column, operator := op, value := v }).toOption
  let c ← t.condition? p
  return c.holds row

/-- The filter accepts the row. -/
def admits (t : Table) (column : String) (row : Row) (op : Operator) (v : Value) : Bool :=
  t.admits? column row op v == some true

theorem admits?_of_condition? {op : Operator} {p : Predicate} {c : Condition}
    (hp : Predicate.criterion? column { field := column, operator := op, value := v } = .ok p)
    (hc : t.condition? p = some c) : t.admits? column row op v = some (c.holds row) := by
  simp [admits?, hp, hc, Except.toOption]

theorem admits_of_condition? {op : Operator} {p : Predicate} {c : Condition}
    (hp : Predicate.criterion? column { field := column, operator := op, value := v } = .ok p)
    (hc : t.condition? p = some c) : t.admits column row op v = c.holds row := by
  rw [admits, admits?_of_condition? hp hc]
  cases c.holds row <;> rfl

/-- A query with one filter, if that is no regular expression, gives the rows that it accepts. -/
theorem select_admits {op : Operator} {p : Predicate} {c : Condition}
    (hp : Predicate.criterion? column { field := column, operator := op, value := v } = .ok p)
    (hc : t.condition? p = some c) (hplain : p.isPlain = true) :
    t.select [p] = .ok (t.rows.filter fun row => t.admits column row op v) := by
  refine select_eq_ok.2 ⟨⟨[c], by simp [hc], fun row _ => breaks_allOf ?_⟩, ?_⟩
  · intro d hd
    rw [List.mem_singleton.1 hd]
    exact breaks_of_isPlain hplain hc row
  · apply List.filter_congr
    intro row _
    rw [admits_of_condition? hp hc, List.all_cons, accepts_of_condition? hc]
    simp

/-! ## Comparisons -/

end Table

/-- The comparison that an operator makes. -/
def comparisonOf? : Operator → Option Comparison
  | .equals => some .eq
  | .notEquals => some .ne
  | .lt => some .lt
  | .lte => some .le
  | .gt => some .gt
  | .gte => some .ge
  | _ => none

/-- The comparison asks whether values are the same, not which is the greater. -/
def Comparison.isEquality : Comparison → Bool
  | .eq | .ne => true
  | _ => false

theorem criterion?_comparison {column : String} {v : Value} {op : Operator} {cmp : Comparison}
    (hop : comparisonOf? op = some cmp) (hnull : v ≠ .null)
    (hbool : cmp.isEquality = true ∨ ∀ b, v ≠ .bool b) :
    Predicate.criterion? column { field := column, operator := op, value := v }
      = .ok (.compare cmp column v) := by
  have hunequal : Predicate.unequal column v = .compare .ne column v := by
    cases v <;> first | rfl | exact absurd rfl hnull
  cases op with
  | equals =>
    cases hop
    exact congrArg _ (Table.equal_eq hnull)
  | notEquals =>
    cases hop
    exact congrArg _ hunequal
  | lt | lte | gt | gte =>
    cases hop
    exact Table.ordered_eq (hbool.resolve_left Bool.false_ne_true) hnull _
  | _ => cases hop

namespace Table

variable {t : Table} {column : String} {row : Row} {v : Value}

theorem holds_compare {cmp : Comparison} {c : Cell} (hcell : c ≠ .null) (hnan : c.isNan = false)
    (hrow : (row.cell column).isNan = false) :
    (Condition.compare cmp column c).holds row =
      (!(row.cell column).isNull && cmp.holds (Cell.compareRank (row.cell column) c)) := by
  simp only [Condition.holds, Condition.truth, Condition.compareCells,
    compare?_eq_order hcell hnan hrow]
  cases (row.cell column).isNull
  · simp
  · rfl

theorem condition?_compare {cmp : Comparison} {c : Cell} (h : t.operand? column v = some c) :
    t.condition? (.compare cmp column v) = some (.compare cmp column c) := by
  simp [condition?, h]

/-- The comparisons with an operand look at one order of the row and the operand. -/
theorem admits?_comparison (hv : t.Storable column v) (hrow : (row.cell column).isNan = false) :
    ∃ o : Ordering, ∀ op cmp, comparisonOf? op = some cmp →
      cmp.isEquality = true ∨ (∀ b, v ≠ .bool b) →
      t.admits? column row op v = some (!(row.cell column).isNull && cmp.holds o) := by
  obtain ⟨c, hc, hcell, hnan⟩ := hv.exists_cell
  refine ⟨Cell.compareRank (row.cell column) c, fun op cmp hop hbool => ?_⟩
  rw [admits?_of_condition? (criterion?_comparison hop hv.present hbool) (condition?_compare hc),
    holds_compare hcell hnan hrow]

/-! ## Ranges -/

theorem holds_between (low high : Cell) :
    (Condition.between column low high).holds row =
      ((Condition.compare .ge column low).holds row &&
        (Condition.compare .le column high).holds row) := by
  rw [Bool.eq_iff_iff, Bool.and_eq_true, Condition.holds_eq_true, Condition.holds_eq_true,
    Condition.holds_eq_true]
  exact Truth.and_eq_true

theorem criterion?_between {pair low high : Value} (h : pair.members? = some [low, high]) :
    Predicate.criterion? column { field := column, operator := .between, value := pair }
      = .ok (.between column low high) := by
  simp [Predicate.criterion?, Predicate.members, h, bind, Except.bind]

/-! ## Lists -/

theorem anyEqual_eq_true {a : Cell} {cells : List Cell} :
    Condition.anyEqual a cells = some true ↔
      ∃ c ∈ cells, Condition.compareCells .eq a c = some true := by
  induction cells with
  | nil => simp [Condition.anyEqual]
  | cons c cells ih =>
    have hcons : Condition.anyEqual a (c :: cells) =
        (Condition.compareCells .eq a c).or (Condition.anyEqual a cells) := rfl
    rw [hcons, Truth.or_eq_true, ih, List.exists_mem_cons_iff]

theorem holds_member (cells : List Cell) :
    (Condition.member false column cells).holds row =
      cells.any fun c => (Condition.compare .eq column c).holds row := by
  rw [Bool.eq_iff_iff, Condition.holds_eq_true, List.any_eq_true]
  simp only [Condition.holds_eq_true]
  exact anyEqual_eq_true

/-- Equality with one of several cells is unknown only for an absent value. -/
theorem isSome_anyEqual {a : Cell} {cells : List Cell}
    (h : ∀ c ∈ cells, (Condition.compareCells .eq a c).isSome = true) :
    (Condition.anyEqual a cells).isSome = true := by
  induction cells with
  | nil => rfl
  | cons c cells ih =>
    obtain ⟨hc, hcells⟩ := List.forall_mem_cons.1 h
    obtain ⟨p, hp⟩ := Option.isSome_iff_exists.1 hc
    obtain ⟨q, hq⟩ := Option.isSome_iff_exists.1 (ih hcells)
    have hcons : Condition.anyEqual a (c :: cells) =
        (Condition.compareCells .eq a c).or (Condition.anyEqual a cells) := rfl
    rw [hcons, hp, hq]
    cases p <;> cases q <;> rfl

theorem anyEqual_null {cells : List Cell} (h : cells ≠ []) :
    Condition.anyEqual .null cells = none := by
  induction cells with
  | nil => exact absurd rfl h
  | cons c cells ih =>
    cases cells with
    | nil => rfl
    | cons d cells =>
      have hcons : Condition.anyEqual .null (c :: d :: cells) =
          Truth.or none (Condition.anyEqual .null (d :: cells)) := rfl
      rw [hcons, ih (List.cons_ne_nil _ _)]
      rfl

theorem holds_not_member {cells : List Cell} (hne : cells ≠ [])
    (hcells : ∀ c ∈ cells, c ≠ .null ∧ c.isNan = false)
    (hrow : (row.cell column).isNan = false) :
    (Condition.member true column cells).holds row =
      (!(row.cell column).isNull && !(Condition.member false column cells).holds row) := by
  simp only [Condition.holds, Condition.truth, if_true, Bool.false_eq_true, if_false]
  cases hnull : (row.cell column).isNull with
  | true =>
    rw [isNull_iff.1 hnull, anyEqual_null hne]
    rfl
  | false =>
    have hknown : ∀ c ∈ cells,
        (Condition.compareCells .eq (row.cell column) c).isSome = true := by
      intro c hc
      rw [Condition.compareCells, compare?_eq_order (hcells c hc).1 (hcells c hc).2 hrow, hnull]
      rfl
    obtain ⟨b, hb⟩ := Option.isSome_iff_exists.1 (isSome_anyEqual hknown)
    rw [hb]
    cases b <;> rfl

theorem criterion?_listed {list : Value} {vs : List Value} (h : list.members? = some vs)
    (negated : Bool) :
    Predicate.criterion? column
        { field := column, operator := if negated then .notIn else .isIn, value := list }
      = .ok (.member negated column vs) := by
  cases negated <;> simp [Predicate.criterion?, Predicate.members, h, Except.map]

/-- The cells of storable operands, each of which answers whether the row is level with it. -/
theorem exists_cells (row : Row) {vs : List Value} (h : ∀ v ∈ vs, t.Storable column v) :
    ∃ cells, vs.mapM (t.operand? column) = some cells ∧
      (∀ c ∈ cells, c ≠ .null ∧ c.isNan = false) ∧
      (cells.any fun c => (Condition.compare .eq column c).holds row) =
        vs.any fun v => t.admits column row .equals v := by
  induction vs with
  | nil => exact ⟨[], rfl, by simp, rfl⟩
  | cons v vs ih =>
    obtain ⟨hv, hvs⟩ := List.forall_mem_cons.1 h
    obtain ⟨cells, hcells, hpresent, hany⟩ := ih hvs
    obtain ⟨c, hc, hcell, hnan⟩ := hv.exists_cell
    refine ⟨c :: cells, by simp [hc, hcells], List.forall_mem_cons.2 ⟨⟨hcell, hnan⟩, hpresent⟩, ?_⟩
    have hequals : t.admits column row .equals v = (Condition.compare .eq column c).holds row :=
      admits_of_condition? (criterion?_comparison rfl hv.present (.inl rfl)) (condition?_compare hc)
    rw [List.any_cons, List.any_cons, hany, hequals]

/-! ## The laws -/

/-- How the operators on a column go together for a row. -/
structure OperatorLaws (t : Table) (column : String) (row : Row) : Prop where
  absent : ∀ v, t.admits? column row .isNull v = some (row.cell column).isNull
  /-- Of absent, below, level and above just one is the case. -/
  ordered : ∀ v, t.Storable column v → (∀ b, v ≠ .bool b) →
    ∃ below level above, t.admits? column row .lt v = some below ∧
      t.admits? column row .equals v = some level ∧ t.admits? column row .gt v = some above ∧
      [(row.cell column).isNull, below, level, above].count true = 1 ∧
      t.admits? column row .lte v = some (below || level) ∧
      t.admits? column row .gte v = some (above || level)
  unequal : ∀ v, t.Storable column v → ∃ level, t.admits? column row .equals v = some level ∧
    t.admits? column row .notEquals v = some (!(row.cell column).isNull && !level)
  between : ∀ pair low high, pair.members? = some [low, high] →
    t.Storable column low → (∀ b, low ≠ .bool b) → t.Storable column high → (∀ b, high ≠ .bool b) →
    ∃ above below, t.admits? column row .gte low = some above ∧
      t.admits? column row .lte high = some below ∧
      t.admits? column row .between pair = some (above && below)
  isIn : ∀ list vs, list.members? = some vs → (∀ v ∈ vs, t.Storable column v) →
    t.admits? column row .isIn list = some (vs.any fun v => t.admits column row .equals v)
  notIn : ∀ list vs, list.members? = some vs → vs ≠ [] → (∀ v ∈ vs, t.Storable column v) →
    t.admits? column row .notIn list =
      some (!(row.cell column).isNull && !t.admits column row .isIn list)

/-- The operators on a column obey these laws for every row whose cell is no NaN, and for all
operands that the store has a form for: an absent cell satisfies `isNull` alone, the orders split
what is present three ways, and ranges, lists and negations are what they are made of. -/
theorem operatorLaws (t : Table) {column : String} {row : Row}
    (hrow : (row.cell column).isNan = false) : t.OperatorLaws column row where
  absent v := by
    have hholds : (Condition.isNull column).holds row = (row.cell column).isNull := by
      simp only [Condition.holds, Condition.truth]
      cases (row.cell column).isNull <;> rfl
    rw [← hholds]
    exact admits?_of_condition? rfl rfl
  ordered v hv hbool := by
    obtain ⟨o, ho⟩ := admits?_comparison hv hrow
    refine ⟨_, _, _, ho .lt .lt rfl (.inr hbool), ho .equals .eq rfl (.inr hbool),
      ho .gt .gt rfl (.inr hbool), ?_, ?_, ?_⟩
    · cases (row.cell column).isNull <;> cases o <;> rfl
    · rw [ho .lte .le rfl (.inr hbool)]
      cases (row.cell column).isNull <;> cases o <;> rfl
    · rw [ho .gte .ge rfl (.inr hbool)]
      cases (row.cell column).isNull <;> cases o <;> rfl
  unequal v hv := by
    obtain ⟨o, ho⟩ := admits?_comparison hv hrow
    refine ⟨_, ho .equals .eq rfl (.inl rfl), ?_⟩
    rw [ho .notEquals .ne rfl (.inl rfl)]
    cases (row.cell column).isNull <;> cases o <;> rfl
  between pair low high hpair hlow hlowBool hhigh hhighBool := by
    obtain ⟨c, hc, -⟩ := hlow.exists_cell
    obtain ⟨d, hd, -⟩ := hhigh.exists_cell
    have hfrom : t.admits? column row .gte low
        = some ((Condition.compare .ge column c).holds row) :=
      admits?_of_condition? (criterion?_comparison rfl hlow.present (.inr hlowBool))
        (condition?_compare hc)
    have hto : t.admits? column row .lte high
        = some ((Condition.compare .le column d).holds row) :=
      admits?_of_condition? (criterion?_comparison rfl hhigh.present (.inr hhighBool))
        (condition?_compare hd)
    refine ⟨_, _, hfrom, hto, ?_⟩
    rw [← holds_between]
    exact admits?_of_condition? (criterion?_between hpair) (by simp [condition?, hc, hd])
  isIn list vs hlist hvs := by
    obtain ⟨cells, hcells, -, hany⟩ := exists_cells row hvs
    rw [← hany, ← holds_member]
    exact admits?_of_condition? (criterion?_listed hlist false) (by simp [condition?, hcells])
  notIn list vs hlist hne hvs := by
    obtain ⟨cells, hcells, hpresent, -⟩ := exists_cells row hvs
    have hin : t.admits column row .isIn list = (Condition.member false column cells).holds row :=
      admits_of_condition? (criterion?_listed hlist false) (by simp [condition?, hcells])
    have hcellsne : cells ≠ [] := by
      rintro rfl
      exact hne (List.forall₂_nil_right_iff.1 (mapM_eq_some.1 hcells))
    rw [hin, ← holds_not_member hcellsne hpresent hrow]
    exact admits?_of_condition? (criterion?_listed hlist true) (by simp [condition?, hcells])

def filmTable : Table := { columns := Catalog.movies.columns }

/-- A film that is rated, has no genre and is not featured. -/
def ratedFilm : Row :=
  [("rating", .real (.finite false 8444249301319680 (-50))), ("is_featured", .integer 0)]

theorem ratedFilm_laws :
    (ColumnType.numeric 1 true).keep? (.decimal (.finite false 75 (-1)))
        = some (ratedFilm.cell "rating") ∧
      filmTable.Storable "rating" (.decimal (.finite false 750 (-2))) ∧
      filmTable.OperatorLaws "rating" ratedFilm ∧
      filmTable.admits? "rating" ratedFilm .equals (.decimal (.finite false 750 (-2)))
        = some true := by
  have hkept : (ColumnType.numeric 1 true).keep? (.decimal (.finite false 75 (-1)))
      = some (ratedFilm.cell "rating") := rfl
  exact ⟨hkept, ⟨nofun, rfl, rfl⟩, operatorLaws filmTable (ColumnType.isNan_of_keep? hkept), rfl⟩

/-- A boolean has no order comparison, so that a row can be neither below it nor level with it nor
above; and a list of no values does not exclude an absent value. -/
theorem featured_unordered :
    filmTable.Storable "is_featured" (.bool true) ∧
      [filmTable.admits "is_featured" ratedFilm .isNull .null,
        filmTable.admits "is_featured" ratedFilm .lt (.bool true),
        filmTable.admits "is_featured" ratedFilm .equals (.bool true),
        filmTable.admits "is_featured" ratedFilm .gt (.bool true)].count true ≠ 1 ∧
      (ratedFilm.cell "genre").isNull = true ∧
      filmTable.admits "genre" ratedFilm .notIn (.list []) = true :=
  ⟨⟨nofun, rfl, rfl⟩, by decide, rfl, rfl⟩

end Table
end RecordQuery.Store
