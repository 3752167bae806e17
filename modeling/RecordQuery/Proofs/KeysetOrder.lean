import RecordQuery.Model.Catalog
import RecordQuery.Proofs.Keyset
import RecordQuery.Proofs.Places

/-!
# The keyset condition and the order of sorting

Rows are sorted by the tuples of their keys, absent cells first when ascending and last when
descending. The condition of coming after a position decides the same order, although it is put
together from comparisons to which an absent cell gives no answer.

* `compareTuples`: the order of two key tuples, which is the one that sorts rows.
* `Table.Bound`: the key tuple for which the values of a position stand.
* `Table.after_decides_iff`: the condition holds of exactly the rows whose tuples come strictly
  after the position, unless the position has a boolean: then there is no condition.
-/

namespace RecordQuery.Store

open RecordQuery.Number

/-! ## Key tuples -/

/-- The cells of a row in the columns of an order. -/
def Row.tuple (keys : List SortKey) (row : Row) : List Cell := keys.map fun k => row.cell k.column

/-- The order of two key tuples: by the first key in which they differ. -/
def compareTuples : List SortKey → List Cell → List Cell → Ordering
  | k :: keys, a :: as, b :: bs => (Direction.order k.direction a b).then (compareTuples keys as bs)
  | _, _, _ => .eq

/-- Rows are sorted by their key tuples. -/
theorem compareRows_eq_compareTuples (keys : List SortKey) (a b : Row) :
    compareRows keys a b = compareTuples keys (a.tuple keys) (b.tuple keys) := by
  induction keys with
  | nil => rfl
  | cons k keys ih =>
    rw [compareRows, ih]
    rfl

/-- Tuples without NaNs are in the order of their ranks. -/
theorem comparePosition_eq_compareTuples {keys : List SortKey} {cells : List Cell} {row : Row}
    (hcells : ∀ c ∈ cells, c.isNan = false) (hrow : row.Ordered keys) :
    comparePosition keys cells row = compareTuples keys cells (row.tuple keys) := by
  induction keys generalizing cells with
  | nil => rfl
  | cons k keys ih =>
    cases cells with
    | nil => rfl
    | cons c cells =>
      have hc := hcells c List.mem_cons_self
      have hk := hrow k List.mem_cons_self
      have hrest : comparePosition keys cells row = compareTuples keys cells (row.tuple keys) :=
        ih (fun c hc => hcells c (List.mem_cons_of_mem _ hc))
          (fun k hk => hrow k (List.mem_cons_of_mem _ hk))
      rw [comparePosition_cons, hrest, ← Direction.order_eq_compareRank hc hk]
      rfl

namespace Table

variable {t : Table}

/-- The values of a position are bound as these cells of the columns of an order. Only an absent
value stands for an absent cell: a NaN, which a store keeps as absent, is no key of a row. -/
inductive Bound (t : Table) : List SortCriterion → List Value → List Cell → Prop where
  | nil : t.Bound [] [] []
  | cons {s : SortCriterion} {v : Value} {c : Cell} {sort : List SortCriterion}
      {position : List Value} {cells : List Cell} (operand : t.operand? s.field v = some c)
      (absent : c = .null → v = .null) (tail : t.Bound sort position cells) :
      t.Bound (s :: sort) (v :: position) (c :: cells)

section Bound

variable {sort : List SortCriterion} {position : List Value} {cells : List Cell}

theorem Bound.length_eq (h : t.Bound sort position cells) : position.length = sort.length := by
  induction h with
  | nil => rfl
  | cons _ _ _ ih => simp [ih]

theorem Bound.isNan (h : t.Bound sort position cells) : ∀ c ∈ cells, c.isNan = false := by
  induction h with
  | nil => simp
  | cons operand _ _ ih => exact List.forall_mem_cons.2 ⟨isNan_of_operand? operand, ih⟩

/-- Without booleans, every value of a bound position can be compared with. -/
theorem Bound.placed (h : t.Bound sort position cells) (hbool : ∀ b, .bool b ∉ position) :
    t.Placed sort position cells := by
  induction h with
  | nil => exact .nil
  | @cons s v c sort position cells operand absent _ ih =>
    have hhead : ∀ b, v ≠ .bool b := by
      rintro b rfl
      exact hbool b List.mem_cons_self
    refine .cons ?_ (ih fun b hb => hbool b (List.mem_cons_of_mem _ hb))
    by_cases hnull : v = .null
    · subst hnull
      rw [operand?_null operand]
      exact .absent
    · exact .present hhead hnull operand (fun hc => hnull (absent hc)) (isNan_of_operand? operand)

/-- The condition of coming after a position decides every row, and holds of exactly those whose
key tuples come strictly after the position in the order of sorting, if and only if no value of the
position is a boolean. -/
theorem after_decides_iff (hsort : sort ≠ []) (h : t.Bound sort position cells) :
    (∃ p c, Predicate.after sort position = .ok p ∧ t.condition? p = some c ∧
      ∀ row : Row, row.Ordered (sortKeys sort) → c.breaks row = false ∧
        (c.truth row = some true ↔
          compareTuples (sortKeys sort) cells (row.tuple (sortKeys sort)) = .lt)) ↔
      ∀ b, .bool b ∉ position := by
  constructor
  · rintro ⟨p, c, hafter, -⟩ b hb
    obtain ⟨f, hf⟩ := after_eq_error h.length_eq hb
    rw [hf] at hafter
    cases hafter
  · intro hbool
    obtain ⟨p, hafter, hsturdy, haccepts⟩ := after_accepts hsort (h.placed hbool)
    obtain ⟨c, hc⟩ := Option.isSome_iff_exists.1 hsturdy.form
    refine ⟨p, c, hafter, hc, ?_⟩
    intro row hrow
    have hrow' := haccepts row hrow
    rw [accepts_of_condition? hc, comparePosition_eq_compareTuples h.isNan hrow] at hrow'
    refine ⟨breaks_of_isPlain hsturdy.plain hc row, ?_⟩
    rw [← Condition.holds_eq_true, hrow', beq_iff_eq]

end Bound

/-! ## A film without a genre -/

def films : Table := { columns := Catalog.movies.columns }

/-- By genre, and the films of a genre from the best one downwards. -/
def byGenre : List SortCriterion := [⟨"genre", .asc⟩, ⟨"rating", .desc⟩, ⟨"id", .asc⟩]

def ungenred : List Value :=
  [.null, .decimal (.finite false 62 (-1)),
    .uuid ⟨0xabcdef00000040008000000000000005, by decide⟩]

def ungenredCells : List Cell :=
  [.null, .real (.ofScientific ⟨false, 62, -1⟩), .text "abcdef00000040008000000000000005"]

theorem ungenred_decides :
    byGenre ≠ [] ∧ films.Bound byGenre ungenred ungenredCells ∧
      ∃ p c, Predicate.after byGenre ungenred = .ok p ∧ films.condition? p = some c ∧
        ∀ row : Row, row.Ordered (sortKeys byGenre) → c.breaks row = false ∧
          (c.truth row = some true ↔ compareTuples (sortKeys byGenre) ungenredCells
            (row.tuple (sortKeys byGenre)) = .lt) := by
  have hbound : films.Bound byGenre ungenred ungenredCells :=
    .cons (by decide +kernel) (fun _ => rfl) <| .cons (by decide +kernel) (fun h => by cases h) <|
      .cons (by decide +kernel) (fun h => by cases h) .nil
  exact ⟨by decide, hbound, (after_decides_iff (by decide) hbound).2 (by simp [ungenred])⟩

end Table
end RecordQuery.Store
