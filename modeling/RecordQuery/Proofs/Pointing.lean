import RecordQuery.Model.Catalog
import RecordQuery.Proofs.Slices
import RecordQuery.Proofs.StoredForms

/-!
# The row that a cursor points at

A cursor is minted for the last row of a page. The next page is to begin right after that row: the
row itself does not come again, and no row after it is passed over. So it is if and only if the row
agrees with everything that the cursor brings back for it.

* `Table.Met`: what a value that came back is to the column of its row.
* `Table.after_exact_iff`: the condition of coming after such a position is the order of the rows
  after the row if and only if the row agrees with every value, and none is a boolean.
* `Table.Holds`: the value that a row keeps in a column.
* `Executor.cursor_exact_iff`: the row agrees with a value that came back if and only if what it
  keeps there survives, for columns of every type; and the cursor points at the row if and only if
  all that it keeps survives without being a boolean.
-/

namespace RecordQuery.Store

open RecordQuery.Number

namespace Table

variable {t : Table}

/-! ## Values that came back -/

/-- A row agrees with a value if the cell of the value compares equal, and is absent only for an
absent value. -/
theorem level_iff {column : String} {v : Value} {c : Cell} (operand : t.operand? column v = some c)
    {row : Row} (hrow : (row.cell column).isNan = false) :
    t.level column v row = true ↔ (row.cell column).order c = .eq ∧ (c = .null → v = .null) := by
  have nan := isNan_of_operand? operand
  rw [level, Cell.order_eq_compareRank hrow nan]
  by_cases hnull : v = .null
  · subst hnull
    rw [operand?_null operand, equal_accepts_null, beq_iff_eq, Std.OrientedCmp.eq_comm]
    simp
  by_cases hcell : c = .null
  · subst hcell
    rw [equal_eq hnull, accepts_compare_null operand]
    simp [hnull]
  · rw [equal_accepts_present hnull operand hcell nan hrow, beq_iff_eq, Std.OrientedCmp.eq_comm]
    simp [hcell]

/-- What a value that came back is to the column of its row: it stands for a cell, or it is the NaN
of JSON, which stands for none. -/
inductive Met (t : Table) (column : String) (row : Row) (v : Value) : Prop where
  | standing {c : Cell} (stands : t.Stands column v c)
  | lost (bool : ∀ b, v ≠ .bool b) (null : v ≠ .null) (operand : t.operand? column v = some .null)
      (cell : row.cell column = .text "NaN")

theorem Met.comparable {column : String} {row : Row} {v : Value} (h : t.Met column row v) :
    t.Comparable column v := by
  cases h with
  | standing stands => exact stands.comparable
  | lost bool null operand => exact .present bool null operand

/-- A row with the cell is not past the value, whatever the direction. -/
structure Rests (t : Table) (column : String) (v : Value) (c : Cell) : Prop where
  nan : c.isNan = false
  past : ∀ (direction : Direction) (row : Row), row.cell column = c →
    t.past ⟨column, direction⟩ v row = false

/-- The cell for which a value stands is not past it. -/
theorem Stands.rests {column : String} {v : Value} {c : Cell} (h : t.Stands column v c) :
    t.Rests column v c := by
  refine ⟨h.isNan, ?_⟩
  rintro direction row rfl
  have hself : Direction.compareRank direction (row.cell column) (row.cell column) = .eq :=
    Std.ReflCmp.compare_self
  rw [past_eq h h.isNan, hself]
  rfl

/-- No cell is past a value that stands for none, unless it is absent. -/
theorem rests_of_lost {column : String} {v : Value} (bool : ∀ b, v ≠ .bool b) (null : v ≠ .null)
    (operand : t.operand? column v = some .null) {c : Cell} (nan : c.isNan = false)
    (cell : c ≠ .null) : t.Rests column v c := by
  refine ⟨nan, ?_⟩
  rintro direction row rfl
  cases direction with
  | asc =>
    rw [past_of_beyond (beyond_asc bool null)]
    exact accepts_compare_null operand row
  | desc =>
    have hform : t.Sturdy (.compare .lt column v) := sturdy_compare operand
    rw [past_of_beyond (beyond_desc bool null), accepts_or hform.form rfl,
      accepts_compare_null operand, accepts_isNull, Bool.false_or]
    exact Bool.eq_false_iff.2 fun h => cell (isNull_iff.1 h)

section Met

variable {column : String} {row : Row} {v : Value} (h : t.Met column row v)
  (hrow : (row.cell column).isNan = false)

include h hrow

/-- There is a cell that is not past the value, and is level with the row if that agrees. -/
theorem Met.exists_level :
    ∃ c, t.Rests column v c ∧
      (t.level column v row = true → Cell.compareRank (row.cell column) c = .eq) := by
  cases h with
  | @standing c stands =>
    refine ⟨c, stands.rests, ?_⟩
    intro hlevel
    rw [level, equal_accepts stands hrow, beq_iff_eq] at hlevel
    exact Std.OrientedCmp.eq_symm hlevel
  | lost bool null operand =>
    refine ⟨.integer 0, rests_of_lost bool null operand rfl (by simp), ?_⟩
    intro hlevel
    exact absurd (((level_iff operand hrow).1 hlevel).2 rfl) null

/-- If the row does not agree and is not past the value, there is a cell after it that is not past
the value either. -/
theorem Met.exists_after {direction : Direction} (hlevel : t.level column v row = false)
    (hpast : t.past ⟨column, direction⟩ v row = false) :
    ∃ c, t.Rests column v c ∧ Direction.compareRank direction (row.cell column) c = .lt := by
  cases h with
  | @standing c stands =>
    refine ⟨c, stands.rests, ?_⟩
    rw [level, equal_accepts stands hrow, beq_eq_false_iff_ne] at hlevel
    rw [past_eq stands hrow, beq_eq_false_iff_ne] at hpast
    cases hrank : Direction.compareRank direction c (row.cell column) with
    | lt => exact absurd hrank hpast
    | eq => exact absurd (Direction.compareRank_eq_iff.1 hrank) hlevel
    | gt => exact Std.OrientedCmp.gt_iff_lt.1 hrank
  | lost bool null operand cell =>
    rw [cell]
    cases direction with
    | asc => exact ⟨.text "O", rests_of_lost bool null operand rfl (by simp), by decide⟩
    | desc => exact ⟨.integer 0, rests_of_lost bool null operand rfl (by simp), by decide⟩

end Met

/-! ## Positions that came back -/

section Position

variable {sort : List SortCriterion} {f : String → Value} {row : Row}

theorem follows_eq_false (h : ∀ s ∈ sort, t.past s (f s.field) row = false) :
    t.follows sort (sort.map fun s => f s.field) row = false := by
  induction sort with
  | nil => rfl
  | cons s sort ih =>
    rw [List.map_cons, follows, h s List.mem_cons_self,
      ih fun k hk => h k (List.mem_cons_of_mem _ hk)]
    simp

/-- The first value with which a row does not agree decides: the row is not past it, and a row that
is level before it and comes after there is one that comes after. -/
theorem exists_apart (hfollows : t.follows sort (sort.map fun s => f s.field) row = false)
    (h : ∃ s ∈ sort, t.level s.field (f s.field) row = false) :
    ∃ s ∈ sort, t.level s.field (f s.field) row = false ∧ t.past s (f s.field) row = false ∧
      ∀ other : Row, (∀ k ∈ sort, t.level k.field (f k.field) row = true →
          Cell.compareRank (row.cell k.field) (other.cell k.field) = .eq) →
        Direction.compareRank s.direction (row.cell s.field) (other.cell s.field) = .lt →
        compareRanks (sortKeys sort) row other = .lt := by
  induction sort with
  | nil =>
    obtain ⟨s, hs, -⟩ := h
    cases hs
  | cons k sort ih =>
    rw [List.map_cons, follows, Bool.or_eq_false_iff] at hfollows
    obtain ⟨hpast, hrest⟩ := hfollows
    cases hlevel : t.level k.field (f k.field) row with
    | false =>
      refine ⟨k, List.mem_cons_self, hlevel, hpast, ?_⟩
      intro other _ hafter
      rw [sortKeys_cons, compareRanks_cons, SortKey.compare, hafter]
      rfl
    | true =>
      rw [hlevel, Bool.true_and] at hrest
      obtain ⟨s, hs, hslevel⟩ := h
      have hs : s ∈ sort := by
        rcases List.mem_cons.1 hs with rfl | hs
        · rw [hlevel] at hslevel
          cases hslevel
        · exact hs
      obtain ⟨s, hs, hslevel, hspast, hlt⟩ := ih hrest ⟨s, hs, hslevel⟩
      refine ⟨s, List.mem_cons_of_mem _ hs, hslevel, hspast, ?_⟩
      intro other hother hafter
      have hk := hother k List.mem_cons_self hlevel
      rw [sortKeys_cons, compareRanks_cons, SortKey.compare, Direction.compareRank_eq_iff.2 hk]
      exact hlt other (fun k hk => hother k (List.mem_cons_of_mem _ hk)) hafter

theorem cell_map {g : String → Cell} {s : SortCriterion} (hs : s ∈ sort) :
    Row.cell (sort.map fun k => (k.field, g k.field)) s.field = g s.field := by
  induction sort with
  | nil => cases hs
  | cons k sort ih =>
    unfold Row.cell at ih ⊢
    rw [List.map_cons, List.lookup_cons]
    by_cases hk : s.field = k.field
    · simp [hk]
    · rcases List.mem_cons.1 hs with rfl | hs
      · exact absurd rfl hk
      · rw [beq_eq_false_iff_ne.2 hk]
        exact ih hs

variable (hrow : row.Ordered (sortKeys sort)) (hmet : ∀ s ∈ sort, t.Met s.field row (f s.field))

include hrow hmet

/-- If exactly the rows after the row follow its position, the row agrees with every value. -/
theorem level_of_exact (hexact : ∀ other : Row, other.Ordered (sortKeys sort) →
      t.follows sort (sort.map fun s => f s.field) other
        = (compareRows (sortKeys sort) row other == .lt)) :
    ∀ s ∈ sort, t.level s.field (f s.field) row = true := by
  have hcell : ∀ s ∈ sort, (row.cell s.field).isNan = false := fun s hs =>
    hrow ⟨s.field, s.direction⟩ (List.mem_map_of_mem hs)
  by_contra hsome
  push Not at hsome
  have hself : t.follows sort (sort.map fun s => f s.field) row = false := by
    have hcompare : compareRanks (sortKeys sort) row row = .eq := Std.ReflCmp.compare_self
    rw [hexact row hrow, compareRows_eq hrow hrow, hcompare]
    rfl
  obtain ⟨s, hs, hlevel, hpast, hlt⟩ := exists_apart hself <| by
    obtain ⟨s, hs, hlevel⟩ := hsome
    exact ⟨s, hs, Bool.eq_false_iff.2 hlevel⟩
  -- A row that rests at every value, and comes after the row at the first one that does not agree.
  obtain ⟨after, hafter, hafterLt⟩ := (hmet s hs).exists_after (hcell s hs) hlevel hpast
  have hrest (column : String) : ∃ c, ∀ k ∈ sort, k.field = column →
      t.Rests column (f column) c ∧ (t.level column (f column) row = true →
        Cell.compareRank (row.cell column) c = .eq) := by
    by_cases hcolumn : ∃ k ∈ sort, k.field = column
    · obtain ⟨k, hk, rfl⟩ := hcolumn
      obtain ⟨c, hc⟩ := (hmet k hk).exists_level (hcell k hk)
      exact ⟨c, fun _ _ _ => hc⟩
    · exact ⟨.null, fun k hk heq => absurd ⟨k, hk, heq⟩ hcolumn⟩
  choose rest hrest using hrest
  let g (column : String) : Cell := if column = s.field then after else rest column
  let other : Row := sort.map fun k => (k.field, g k.field)
  have hother : ∀ k ∈ sort, t.Rests k.field (f k.field) (other.cell k.field) := by
    intro k hk
    rw [cell_map hk]
    by_cases hfield : k.field = s.field
    · simpa [g, hfield] using hafter
    · simpa [g, hfield] using (hrest k.field k hk rfl).1
  have hordered : other.Ordered (sortKeys sort) := by
    intro key hkey
    obtain ⟨k, hk, rfl⟩ := List.mem_map.1 hkey
    exact (hother k hk).nan
  have hbefore : compareRanks (sortKeys sort) row other = .lt := by
    refine hlt other ?_ ?_
    · intro k hk hklevel
      have hfield : k.field ≠ s.field := by
        intro hfield
        rw [hfield, hlevel] at hklevel
        cases hklevel
      rw [cell_map hk]
      simpa [g, hfield] using (hrest k.field k hk rfl).2 hklevel
    · rw [cell_map hs]
      simpa [g] using hafterLt
  have hnot : t.follows sort (sort.map fun s => f s.field) other = false :=
    follows_eq_false fun k hk => (hother k hk).past k.direction other rfl
  rw [hexact other hordered, compareRows_eq hrow hordered, hbefore] at hnot
  cases hnot

/-- If the row agrees with every value, they stand for cells that are level with it. -/
theorem exists_placed (hlevel : ∀ s ∈ sort, t.level s.field (f s.field) row = true) :
    ∃ cells, t.Placed sort (sort.map fun s => f s.field) cells ∧
      List.Forall₂ (fun k c => Cell.compareRank (row.cell k.column) c = .eq) (sortKeys sort)
        cells := by
  induction sort with
  | nil => exact ⟨[], .nil, .nil⟩
  | cons s sort ih =>
    obtain ⟨cells, hplaced, hcells⟩ := ih (fun k hk => hrow k (List.mem_cons_of_mem _ hk))
      (fun k hk => hmet k (List.mem_cons_of_mem _ hk))
      (fun k hk => hlevel k (List.mem_cons_of_mem _ hk))
    have hcell : (row.cell s.field).isNan = false := hrow ⟨s.field, s.direction⟩ List.mem_cons_self
    have hs := hlevel s List.mem_cons_self
    cases hmet s List.mem_cons_self with
    | @standing c stands =>
      refine ⟨c :: cells, .cons stands hplaced, .cons ?_ hcells⟩
      rw [level, equal_accepts stands hcell, beq_iff_eq] at hs
      exact Std.OrientedCmp.eq_symm hs
    | lost bool null operand =>
      exact absurd (((level_iff operand hcell).1 hs).2 rfl) null

end Position

/-- The condition of coming after a position that came back is the order of the rows after its row
if and only if the row agrees with every value, and none is a boolean. -/
theorem after_exact_iff {sort : List SortCriterion} (hsort : sort ≠ []) {f : String → Value}
    {row : Row} (hrow : row.Ordered (sortKeys sort))
    (hmet : ∀ s ∈ sort, (∀ b, f s.field ≠ .bool b) → t.Met s.field row (f s.field)) :
    (∃ p, Predicate.after sort (sort.map fun s => f s.field) = .ok p ∧
      ∀ other : Row, other.Ordered (sortKeys sort) →
        t.accepts p other = (compareRows (sortKeys sort) row other == .lt)) ↔
      (∀ s ∈ sort, t.level s.field (f s.field) row = true) ∧
        ∀ b, .bool b ∉ sort.map fun s => f s.field := by
  by_cases hbool : ∀ b, .bool b ∉ sort.map fun s => f s.field
  · have hmet : ∀ s ∈ sort, t.Met s.field row (f s.field) := fun s hs =>
      hmet s hs fun b hb => hbool b (List.mem_map.2 ⟨s, hs, hb⟩)
    have hcomparable : List.Forall₂ (fun (s : SortCriterion) v => t.Comparable s.field v) sort
        (sort.map fun s => f s.field) := by
      rw [List.forall₂_map_right_iff, List.forall₂_same]
      exact fun s hs => (hmet s hs).comparable
    obtain ⟨p, hp, -, haccepts⟩ := after_follows hsort hcomparable
    constructor
    · rintro ⟨q, hq, hexact⟩
      obtain rfl : p = q := Except.ok.inj (hp.symm.trans hq)
      refine ⟨level_of_exact hrow hmet fun other hother => ?_, hbool⟩
      rw [← haccepts, hexact other hother]
    · rintro ⟨hlevel, -⟩
      obtain ⟨cells, hplaced, hcells⟩ := exists_placed hrow hmet hlevel
      refine ⟨p, hp, fun other hother => ?_⟩
      rw [haccepts, hplaced.follows_eq hother, comparePosition_eq hcells,
        compareRows_eq hrow hother]
  · refine ⟨?_, fun h => absurd h.2 hbool⟩
    rintro ⟨p, hp, -⟩
    push Not at hbool
    obtain ⟨b, hb⟩ := hbool
    obtain ⟨e, he⟩ := after_eq_error (List.length_map _) hb
    rw [he] at hp
    cases hp

/-! ## Values that are kept -/

/-- The row keeps the value in the column: it was brought into the form of the column. The column is
absent without a value. -/
def Holds (t : Table) (column : String) (stored : Option Value) (row : Row) : Prop :=
  ∃ type, t.type? column = some type ∧ type.hasFormat = true ∧
    match stored with
    | none => row.cell column = .null
    | some v => type.Takes v ∧ type.keep? v = some (row.cell column)

/-- The value that is kept in the column survives the way through a cursor. -/
def Survives (t : Table) (column : String) (stored : Option Value) : Prop :=
  ∀ type v, t.type? column = some type → stored = some v → type.Survives v

theorem brings_of_holds {column : String} {stored : Option Value} {row : Row}
    (h : t.Holds column stored row) :
    ∃ type, t.type? column = some type ∧
      type.Brings (row.cell column) (t.Survives column stored) := by
  obtain ⟨type, htype, hformat, hcell⟩ := h
  refine ⟨type, htype, ?_⟩
  cases stored with
  | none =>
    rw [hcell]
    have hsurvives : t.Survives column none := by
      intro type v _ hv
      cases hv
    exact (ColumnType.brings_null type).congr ⟨fun _ => hsurvives, fun _ => trivial⟩
  | some v =>
    have hbrings := ColumnType.brings_of_keep? hformat hcell.1 hcell.2
    refine hbrings.congr ⟨?_, fun h => h type v htype rfl⟩
    intro hsurvives type' v' htype' hv'
    obtain rfl := Option.some.inj (htype.symm.trans htype')
    obtain rfl := Option.some.inj hv'
    exact hsurvives

section Brings

variable {column : String} {type : ColumnType} (htype : t.type? column = some type) {row : Row}
  {same : Prop} (h : type.Brings (row.cell column) same)

include htype h

theorem operand?_of_brings :
    t.value column row = type.read (row.cell column) ∧
      ∃ c, t.operand? column (Cursor.carried (t.value column row)) = some c ∧
        (c = .null → t.value column row = .null ∨ row.cell column = .text "NaN") ∧
        ((row.cell column).order c = .eq ↔ same) := by
  have hvalue : t.value column row = type.read (row.cell column) := by simp [value, htype]
  obtain ⟨b, hb, hnull, hsame⟩ := h.operand
  rw [hvalue]
  exact ⟨rfl, b.toward type.affinity, operand?_eq_some.2 ⟨type, htype, b, hb, rfl⟩, hnull, hsame⟩

/-- The row agrees with the value that came back if and only if its cell compares equal. -/
theorem level_iff_of_brings :
    t.level column (Cursor.carried (t.value column row)) row = true ↔ same := by
  obtain ⟨hvalue, c, hc, -, hsame⟩ := operand?_of_brings htype h
  rw [level_iff hc h.nan, ← hsame]
  refine ⟨And.left, fun horder => ⟨horder, ?_⟩⟩
  rintro rfl
  have hcell : row.cell column = .null := by
    cases hcell : row.cell column with
    | null => rfl
    | _ =>
      rw [hcell] at horder
      cases horder
  rw [hvalue, hcell]
  rfl

theorem met_of_brings (hbool : ∀ b, Cursor.carried (t.value column row) ≠ .bool b) :
    t.Met column row (Cursor.carried (t.value column row)) := by
  obtain ⟨hvalue, c, hc, hnull, -⟩ := operand?_of_brings htype h
  by_cases habsent : Cursor.carried (t.value column row) = .null
  · rw [habsent]
    exact .standing .absent
  by_cases hcell : c = .null
  · subst hcell
    refine .lost hbool habsent hc ((hnull rfl).resolve_left ?_)
    intro hvalue
    rw [hvalue] at habsent
    exact habsent rfl
  · exact .standing (.present hbool habsent hc hcell (isNan_of_operand? hc))

end Brings
end Table
end RecordQuery.Store

namespace RecordQuery.Executor

open RecordQuery.Store RecordQuery.Number RecordQuery.Calendar

variable {t : Table} {x : Executor}

/-! ## Cursors -/

section Held

variable (hcolumns : t.columns = x.metadata.model.columns) {sort : List SortCriterion} {row : Row}
  {stored : String → Option Value} (hholds : ∀ s ∈ sort, t.Holds s.field (stored s.field) row)
  (hhonours : Token.Honours (Cursor.effectiveSecret x.secret)
    (Cursor.claims (x.sortValues sort row) sort)) (now : Int)

include hcolumns hholds hhonours

/-- The cursor of a row is read as the values of the row, as they are carried. -/
theorem decode_cursor_of_holds :
    Cursor.decode x.secret now (x.cursor sort row) sort = .ok (t.brought sort row) := by
  refine decode_cursor_of_portable hcolumns hhonours ?_ now
  intro s hs
  obtain ⟨type, htype, h⟩ := Table.brings_of_holds (hholds s hs)
  rw [(Table.operand?_of_brings htype h).1]
  exact h.portable

/-- The cursor of a row that keeps these values is decoded, under a secret that honours it. In every
column of the order, the row agrees with the value that comes back if and only if what it keeps
there survives. The condition of coming after the position rejects the row and those before it, and
accepts exactly the rows after it, if and only if all that the row keeps survives and no value is a
boolean. -/
theorem cursor_exact_iff (hsort : sort ≠ []) :
    ∃ position, Cursor.decode x.secret now (x.cursor sort row) sort = .ok position ∧
      List.Forall₂ (fun (s : SortCriterion) v =>
        t.accepts (.equal s.field v) row = true ↔ t.Survives s.field (stored s.field))
        sort position ∧
      ((∃ p, Predicate.after sort position = .ok p ∧
        ∀ other : Row, other.Ordered (sortKeys sort) →
          t.accepts p other = (compareRows (sortKeys sort) row other == .lt)) ↔
        (∀ s ∈ sort, t.Survives s.field (stored s.field)) ∧ ∀ b, .bool b ∉ position) := by
  have hbrings : ∀ s ∈ sort, ∃ type, t.type? s.field = some type ∧
      type.Brings (row.cell s.field) (t.Survives s.field (stored s.field)) :=
    fun s hs => Table.brings_of_holds (hholds s hs)
  have hrow : row.Ordered (sortKeys sort) := by
    intro key hkey
    obtain ⟨s, hs, rfl⟩ := List.mem_map.1 hkey
    obtain ⟨type, -, h⟩ := hbrings s hs
    exact h.nan
  have hlevel : ∀ s ∈ sort, t.level s.field (Cursor.carried (t.value s.field row)) row = true ↔
      t.Survives s.field (stored s.field) := by
    intro s hs
    obtain ⟨type, htype, h⟩ := hbrings s hs
    exact Table.level_iff_of_brings htype h
  have hmet : ∀ s ∈ sort, (∀ b, Cursor.carried (t.value s.field row) ≠ .bool b) →
      t.Met s.field row (Cursor.carried (t.value s.field row)) := by
    intro s hs
    obtain ⟨type, htype, h⟩ := hbrings s hs
    exact Table.met_of_brings htype h
  refine ⟨_, decode_cursor_of_holds hcolumns hholds hhonours now, ?_, ?_⟩
  · rw [Table.brought, List.forall₂_map_right_iff, List.forall₂_same]
    exact hlevel
  · let f (column : String) : Value := Cursor.carried (t.value column row)
    exact (Table.after_exact_iff hsort (f := f) hrow hmet).trans
      (and_congr_left fun _ => forall₂_congr hlevel)

end Held

/-! ## A sample under its price -/

def lab : Executor where
  metadata := ⟨Catalog.lab, 20, 100⟩
  secret := some "between us"

def samples : Table := { columns := Catalog.lab.columns }

/-- The dearest samples first, and the oldest of a price. -/
def byPrice : List SortCriterion := [⟨"price", .desc⟩, ⟨"at", .asc⟩, ⟨"id", .asc⟩]

/-- A sample at 62.50, measured in another zone. -/
def measured : Entries :=
  [("price", .decimal (.finite false 6250 (-2))),
    ("at", .datetime {
      date := ⟨2023, 6, 30, by decide⟩
      time := ⟨22, 15, 0, 125000, by decide⟩
      offset := some ⟨7200 * microsPerSecond, by decide⟩ }),
    ("id", .int 3)]

def measuredRow : Row :=
  [("price", .real (.ofScientific ⟨false, 625, -1⟩)), ("at", .text "2023-06-30 22:15:00.125000"),
    ("id", .integer 3)]

theorem measured_holds :
    ∀ s ∈ byPrice, samples.Holds s.field (measured.get? s.field) measuredRow := by
  simp only [byPrice, List.forall_mem_cons]
  refine ⟨⟨.numeric 2 true, rfl, by decide, trivial, by decide +kernel⟩,
    ⟨.datetime, rfl, by decide, trivial, by decide +kernel⟩,
    ⟨.integer, rfl, by decide, trivial, by decide +kernel⟩, by simp⟩

theorem measured_survives : ∀ s ∈ byPrice, samples.Survives s.field (measured.get? s.field) := by
  simp only [byPrice, List.forall_mem_cons]
  refine ⟨?_, ?_, ?_, by simp⟩
  · rintro type v ⟨⟩ ⟨⟩
    exact ColumnType.survives_decimal (by decide) false (by decide) (by decide)
  · rintro type v ⟨⟩ ⟨⟩
    trivial
  · rintro type v ⟨⟩ ⟨⟩
    trivial

theorem measured_exact :
    samples.columns = lab.metadata.model.columns ∧ byPrice ≠ [] ∧
      (∀ s ∈ byPrice, samples.Holds s.field (measured.get? s.field) measuredRow) ∧
      Token.Honours (Cursor.effectiveSecret lab.secret)
        (Cursor.claims (lab.sortValues byPrice measuredRow) byPrice) ∧
      ∃ position, Cursor.decode lab.secret 0 (lab.cursor byPrice measuredRow) byPrice
          = .ok position ∧
        ∃ p, Predicate.after byPrice position = .ok p ∧
          ∀ other : Row, other.Ordered (sortKeys byPrice) → samples.accepts p other
            = (compareRows (sortKeys byPrice) measuredRow other == .lt) := by
  have hhonours : Token.Honours (Cursor.effectiveSecret lab.secret)
      (Cursor.claims (lab.sortValues byPrice measuredRow) byPrice) :=
    Token.honours_of_keys (Token.keys_of_not_json (by decide)) _
  have hdecode := decode_cursor_of_holds rfl measured_holds hhonours 0
  obtain ⟨position, hposition, -, hexact⟩ :=
    cursor_exact_iff rfl measured_holds hhonours 0 (by decide)
  have hbool : ∀ b, .bool b ∉ position := by
    obtain rfl := Except.ok.inj (hdecode.symm.trans hposition)
    have hsteady : ∀ s ∈ byPrice,
        Cursor.isSteady (samples.value s.field measuredRow) = true := by decide +kernel
    intro b hb
    obtain ⟨s, hs, hvalue⟩ := List.mem_map.1 hb
    have hs := hsteady s hs
    rw [Cursor.carried_of_isSteady hs] at hvalue
    rw [hvalue] at hs
    cases hs
  exact ⟨rfl, by decide, measured_holds, hhonours, position, hposition,
    hexact.2 ⟨measured_survives, hbool⟩⟩

end RecordQuery.Executor
