import Mathlib.Algebra.Order.Field.Rat
import Mathlib.Algebra.Order.Field.Basic
import Mathlib.Tactic.Positivity
import RecordQuery.Store.Table

/-!
# The order of rows

The order in which a store sorts is a total one, as long as no double is a NaN: absent values come
first, then numbers by their exact values, then texts. Rows compare by their keys, one after the
other.

* `Cell.order_eq_compareRank`: cells compare like their ranks, which are linearly ordered.
* `compareRows_eq`: rows compare like the ranks of their keys, by `compareRanks`, which is an
  order whatever the rows hold.
* `Table.sort_strict`, `Table.eq_of_strict`: rows of which no two are level have one strict order,
  the one that sorting gives.
* `Table.sort_filter`: sorting is stable, so that what remains of sorted rows is sorted.
-/

namespace RecordQuery.Store

open RecordQuery.Number

/-! ## Comparisons in linear orders -/

/-- A strictly monotone map keeps comparisons. -/
theorem compare_map {α β : Type} [LinearOrder α] [LinearOrder β] {f : α → β}
    (hf : StrictMono f) (a b : α) : compare (f a) (f b) = compare a b := by
  rw [← cmp_eq_compare, ← cmp_eq_compare, hf.cmp_map_eq]

theorem compare_intCast (a b : Int) : compare (a : ℚ) (b : ℚ) = compare a b :=
  compare_map Int.cast_strictMono a b

/-- Quotients compare like the products that clear their denominators. -/
theorem compare_div {a c b d : ℚ} (hb : 0 < b) (hd : 0 < d) :
    compare (a / b) (c / d) = compare (a * d) (c * b) := by
  rcases lt_trichotomy (a / b) (c / d) with h | h | h
  · rw [compare_lt_iff_lt.2 h, eq_comm, compare_lt_iff_lt]
    exact (div_lt_div_iff₀ hb hd).1 h
  · rw [compare_eq_iff_eq.2 h, eq_comm, compare_eq_iff_eq]
    exact (div_eq_div_iff hb.ne' hd.ne').1 h
  · rw [compare_gt_iff_gt.2 h, eq_comm, compare_gt_iff_gt]
    exact (div_lt_div_iff₀ hd hb).1 h

/-! ## Doubles -/

/-- The class and the value of a number: 1 for the infinity below all, 3 for that above all. -/
def numberRank : Binary64 → ℕ × ℚ
  | .nan => (2, 0)
  | .infinity negative => (if negative then 1 else 3, 0)
  | .finite negative m e =>
    let (a, b) := Binary64.signedRatio negative m e
    (2, a / b)

theorem signedRatio_pos (negative : Bool) (m : Nat) (e : Int) :
    (0 : ℚ) < (Binary64.signedRatio negative m e).2 := by
  have h : 0 < (Binary64.signedRatio negative m e).2 := by
    unfold Binary64.signedRatio Binary64.ratio
    by_cases he : e < 0 <;> simp [he]
  exact_mod_cast h

theorem binary64_compare?_eq {x y : Binary64} (hx : x.isNan = false) (hy : y.isNan = false) :
    x.compare? y = some ((compare (numberRank x).1 (numberRank y).1).then
      (compare (numberRank x).2 (numberRank y).2)) := by
  cases x with
  | nan => simp [Binary64.isNan] at hx
  | infinity a =>
    cases y with
    | nan => simp [Binary64.isNan] at hy
    | infinity b => cases a <;> cases b <;> rfl
    | finite n m e => cases a <;> rfl
  | finite n m e =>
    cases y with
    | nan => simp [Binary64.isNan] at hy
    | infinity b => cases b <;> rfl
    | finite n' m' e' =>
      simp only [Binary64.compare?, numberRank, compare_div (signedRatio_pos n m e)
        (signedRatio_pos n' m' e'), compare_eq_iff_eq.2 rfl, Ordering.then]
      rw [← compare_intCast]
      push_cast
      rfl

theorem compareInt?_eq {x : Binary64} (hx : x.isNan = false) (n : Int) :
    x.compareInt? n = some ((compare (numberRank x).1 2).then (compare (numberRank x).2 n)) := by
  cases x with
  | nan => simp [Binary64.isNan] at hx
  | infinity a => cases a <;> rfl
  | finite neg m e =>
    have h := compare_div (a := (Binary64.signedRatio neg m e).1) (c := n)
      (signedRatio_pos neg m e) one_pos
    rw [div_one, mul_one] at h
    simp only [Binary64.compareInt?, numberRank, h, compare_eq_iff_eq.2 rfl, Ordering.then]
    rw [← compare_intCast]
    push_cast
    rfl

/-! ## Cells -/

namespace Cell

def isNan : Cell → Bool
  | .real x => x.isNan
  | _ => false

/-- Where a cell stands among all: its class, its number and its text. -/
def rank : Cell → ℕ × ℚ × String
  | .null => (0, 0, "")
  | .integer n => (2, n, "")
  | .real x => ((numberRank x).1, (numberRank x).2, "")
  | .text s => (4, 0, s)

/-- Ranks compare by class, then by number, then by text. -/
def compareRank (a b : Cell) : Ordering :=
  compareLex (compareOn fun c => (rank c).1) (compareLex (compareOn fun c => (rank c).2.1)
    (compareOn fun c => (rank c).2.2)) a b

instance : Std.TransCmp compareRank :=
  inferInstanceAs (Std.TransCmp (compareLex (compareOn fun c : Cell => (rank c).1)
    (compareLex (compareOn fun c => (rank c).2.1) (compareOn fun c => (rank c).2.2))))

theorem compareRank_self (c : Cell) : compareRank c c = .eq :=
  Std.ReflCmp.compare_self

theorem compareRank_swap (a b : Cell) : compareRank a b = (compareRank b a).swap :=
  Std.OrientedCmp.eq_swap

theorem compareRank_eq (a b : Cell) :
    compareRank a b = (compare a.rank.1 b.rank.1).then
      ((compare a.rank.2.1 b.rank.2.1).then (compare a.rank.2.2 b.rank.2.2)) := rfl

theorem numberRank_bounds (x : Binary64) : 1 ≤ (numberRank x).1 ∧ (numberRank x).1 ≤ 3 := by
  cases x with
  | nan => simp [numberRank]
  | infinity a => cases a <;> simp [numberRank]
  | finite n m e => simp [numberRank]

/-- Cells other than NaNs are in the order of their ranks. -/
theorem order_eq_compareRank {a b : Cell} (ha : a.isNan = false) (hb : b.isNan = false) :
    a.order b = compareRank a b := by
  have below (x : Binary64) : compare 0 (numberRank x).1 = .lt :=
    compare_lt_iff_lt.2 (numberRank_bounds x).1
  have above (x : Binary64) : compare (numberRank x).1 4 = .lt :=
    compare_lt_iff_lt.2 (Nat.lt_succ_of_le (numberRank_bounds x).2)
  rw [compareRank_eq]
  cases a with
  | null =>
    cases b with
    | real x => simp only [order, rank, below, Ordering.then]
    | _ => rfl
  | integer m =>
    cases b with
    | integer n => simp [order, compare?, rank, compare_intCast]
    | real x =>
      have hx : x.isNan = false := hb
      simp only [order, compare?, compareInt?_eq hx, rank, Option.map_some, Option.getD_some,
        Ordering.swap_then]
      have hrank : (compare (numberRank x).1 2).swap = compare 2 (numberRank x).1 :=
        Std.OrientedCmp.eq_swap.symm
      have hvalue : (compare (numberRank x).2 (m : ℚ)).swap = compare (m : ℚ) (numberRank x).2 :=
        Std.OrientedCmp.eq_swap.symm
      rw [hrank, hvalue]
      simp
    | _ => rfl
  | real x =>
    have hx : x.isNan = false := ha
    cases b with
    | null =>
      have : compare (numberRank x).1 0 = .gt := compare_gt_iff_gt.2 (numberRank_bounds x).1
      simp only [order, rank, this, Ordering.then]
    | integer n => simp [order, compare?, compareInt?_eq hx, rank]
    | real y =>
      have hy : y.isNan = false := hb
      simp [order, compare?, binary64_compare?_eq hx hy, rank]
    | text s => simp only [order, compare?, rank, above, Ordering.then, Option.getD_some]
  | text s =>
    cases b with
    | real x =>
      have : compare 4 (numberRank x).1 = .gt :=
        compare_gt_iff_gt.2 (Nat.lt_succ_of_le (numberRank_bounds x).2)
      simp only [order, compare?, rank, this, Ordering.then, Option.getD_some]
    | text t => simp [order, compare?, rank]
    | _ => rfl

end Cell

/-! ## Directions -/

/-- The order of two cells in a direction, by their ranks. -/
def Direction.compareRank : Direction → Cell → Cell → Ordering
  | .asc, a, b => Cell.compareRank a b
  | .desc, a, b => Cell.compareRank b a

instance (direction : Direction) : Std.TransCmp (Direction.compareRank direction) := by
  cases direction with
  | asc => exact inferInstanceAs (Std.TransCmp Cell.compareRank)
  | desc => exact (Std.TransCmp.opposite : Std.TransCmp fun a b => Cell.compareRank b a)

/-- Cells are level whatever the direction. -/
theorem Direction.compareRank_eq_iff {direction : Direction} {a b : Cell} :
    Direction.compareRank direction a b = .eq ↔ Cell.compareRank a b = .eq := by
  cases direction with
  | asc => rfl
  | desc => exact Std.OrientedCmp.eq_comm

/-- Without NaNs, the order of cells in a direction is that of their ranks. -/
theorem Direction.order_eq_compareRank {direction : Direction} {a b : Cell}
    (ha : a.isNan = false) (hb : b.isNan = false) :
    Direction.order direction a b = Direction.compareRank direction a b := by
  cases direction with
  | asc => exact Cell.order_eq_compareRank ha hb
  | desc => exact Cell.order_eq_compareRank hb ha

/-! ## Rows -/

/-- The keys of an order. -/
def sortKeys (sort : List SortCriterion) : List SortKey :=
  sort.map fun s => { column := s.field, direction := s.direction }

theorem sortKeys_cons (s : SortCriterion) (sort : List SortCriterion) :
    sortKeys (s :: sort) = ⟨s.field, s.direction⟩ :: sortKeys sort := rfl

/-- No key of the row is a NaN. -/
def Row.Ordered (keys : List SortKey) (row : Row) : Prop :=
  ∀ k ∈ keys, (row.cell k.column).isNan = false

/-- The order of two rows by the ranks of their keys. -/
def compareRanks : List SortKey → Row → Row → Ordering
  | [], _, _ => .eq
  | k :: keys, a, b =>
    (match k.direction with
      | .asc => Cell.compareRank (a.cell k.column) (b.cell k.column)
      | .desc => Cell.compareRank (b.cell k.column) (a.cell k.column)).then (compareRanks keys a b)

instance (keys : List SortKey) : Std.TransCmp (compareRanks keys) := by
  induction keys with
  | nil => exact { eq_swap := rfl, isLE_trans := fun _ _ => rfl }
  | cons k keys ih =>
    have hcells : Std.TransCmp fun a b : Row =>
        Cell.compareRank (a.cell k.column) (b.cell k.column) :=
      { eq_swap := Std.OrientedCmp.eq_swap, isLE_trans := Std.TransCmp.isLE_trans }
    obtain ⟨column, direction⟩ := k
    cases direction with
    | asc => exact inferInstanceAs (Std.TransCmp (compareLex _ (compareRanks keys)))
    | desc =>
      have : Std.TransCmp fun a b : Row => Cell.compareRank (b.cell column) (a.cell column) :=
        @Std.TransCmp.opposite _ _ hcells
      exact inferInstanceAs (Std.TransCmp (compareLex (fun a b : Row =>
        Cell.compareRank (b.cell column) (a.cell column)) (compareRanks keys)))

/-- The order of two rows by one key. -/
def SortKey.compare (k : SortKey) (a b : Row) : Ordering :=
  Direction.compareRank k.direction (a.cell k.column) (b.cell k.column)

theorem compareRanks_cons (k : SortKey) (keys : List SortKey) (a b : Row) :
    compareRanks (k :: keys) a b = (k.compare a b).then (compareRanks keys a b) := by
  obtain ⟨column, direction⟩ := k
  cases direction <;> rfl

theorem compareRanks_self (keys : List SortKey) (row : Row) : compareRanks keys row row = .eq :=
  Std.ReflCmp.compare_self

theorem compareRanks_swap (keys : List SortKey) (a b : Row) :
    compareRanks keys a b = (compareRanks keys b a).swap :=
  Std.OrientedCmp.eq_swap

theorem compareRows_eq {keys : List SortKey} {a b : Row} (ha : a.Ordered keys)
    (hb : b.Ordered keys) : compareRows keys a b = compareRanks keys a b := by
  induction keys with
  | nil => rfl
  | cons k keys ih =>
    have hak := ha k List.mem_cons_self
    have hbk := hb k List.mem_cons_self
    have htail := ih (fun k hk => ha k (List.mem_cons_of_mem _ hk))
      (fun k hk => hb k (List.mem_cons_of_mem _ hk))
    rw [compareRows, compareRanks_cons, htail, SortKey.compare,
      Direction.order_eq_compareRank hak hbk]

/-- Two rows are level only if all their keys are. -/
theorem compareRank_eq_of_compareRanks {keys : List SortKey} {a b : Row}
    (h : compareRanks keys a b = .eq) {k : SortKey} (hk : k ∈ keys) :
    Cell.compareRank (a.cell k.column) (b.cell k.column) = .eq := by
  induction keys with
  | nil => cases hk
  | cons k' keys ih =>
    rw [compareRanks_cons, Ordering.then_eq_eq] at h
    rcases List.mem_cons.1 hk with rfl | hk
    · exact Direction.compareRank_eq_iff.1 h.1
    · exact ih h.2 hk

/-! ## Stable sorting -/

/-- A threshold cuts a list in one place. -/
theorem eq_of_threshold {α : Type} {q : α → Bool} {below above below' above' : List α}
    (h : below ++ above = below' ++ above') (hbelow : ∀ b ∈ below, q b = true)
    (habove : ∀ b ∈ above, q b = false) (hbelow' : ∀ b ∈ below', q b = true)
    (habove' : ∀ b ∈ above', q b = false) : below = below' ∧ above = above' := by
  have hfilter := congrArg (List.filter q) h
  have hnil {l : List α} (hl : ∀ b ∈ l, q b = false) : l.filter q = [] :=
    List.filter_eq_nil_iff.2 fun b hb => by simp [hl b hb]
  rw [List.filter_append, List.filter_append, List.filter_eq_self.2 hbelow,
    List.filter_eq_self.2 hbelow', hnil habove, hnil habove', List.append_nil, List.append_nil]
    at hfilter
  subst hfilter
  exact ⟨rfl, List.append_cancel_left h⟩

/-- Sorting is stable: it gives what is kept of a list in the order that it gives the list. -/
theorem mergeSort_filter {α : Type} {le : α → α → Bool}
    (trans : ∀ a b c, le a b = true → le b c = true → le a c = true)
    (total : ∀ a b, (le a b || le b a) = true) (p : α → Bool) (l : List α) :
    (l.filter p).mergeSort le = (l.mergeSort le).filter p := by
  induction l with
  | nil => simp
  | cons a l ih =>
    obtain ⟨below, above, hsort, htail, hbelow⟩ := List.mergeSort_cons trans total a l
    have hsorted := List.pairwise_mergeSort trans total (a :: l)
    rw [htail, List.filter_append] at ih
    rw [hsort, List.pairwise_append] at hsorted
    rw [hsort, List.filter_append]
    by_cases ha : p a = true
    · obtain ⟨below', above', hsort', htail', hbelow'⟩ :=
        List.mergeSort_cons trans total a (l.filter p)
      have hsorted' := List.pairwise_mergeSort trans total (a :: l.filter p)
      rw [hsort', List.pairwise_append] at hsorted'
      -- the new member stands behind all that is strictly below it, before and after the filter
      obtain ⟨rfl, rfl⟩ := eq_of_threshold (q := fun b => !le a b) (htail'.symm.trans ih) hbelow'
        (fun b hb => by simpa using List.rel_of_pairwise_cons hsorted'.2.1 hb)
        (fun b hb => hbelow b (List.mem_of_mem_filter hb))
        (fun b hb => by
          simpa using List.rel_of_pairwise_cons hsorted.2.1 (List.mem_of_mem_filter hb))
      rw [List.filter_cons_of_pos ha, List.filter_cons_of_pos ha, hsort']
    · rw [List.filter_cons_of_neg ha, List.filter_cons_of_neg ha, ih]

/-! ## Sorted rows -/

/-- The first row comes strictly before the second. -/
def Row.Before (keys : List SortKey) (a b : Row) : Prop := compareRanks keys a b = .lt

theorem Row.Before.trans {keys : List SortKey} {a b c : Row} (hab : Row.Before keys a b)
    (hbc : Row.Before keys b c) : Row.Before keys a c :=
  Std.TransCmp.lt_trans hab hbc

theorem Row.Before.irrefl {keys : List SortKey} {a : Row} : ¬ Row.Before keys a a := by
  intro h
  unfold Row.Before at h
  rw [compareRanks_self] at h
  cases h

theorem Row.Before.isLE {keys : List SortKey} {a b : Row} (h : Row.Before keys a b) :
    (compareRanks keys a b).isLE = true := by
  rw [show compareRanks keys a b = .lt from h]
  rfl

instance (keys : List SortKey) (a : Row) : DecidablePred (Row.Before keys a) := fun b =>
  inferInstanceAs (Decidable (compareRanks keys a b = .lt))

namespace Table

variable {keys : List SortKey} {rows : List Row}

theorem sort_perm (keys : List SortKey) (rows : List Row) : (sort keys rows).Perm rows :=
  List.mergeSort_perm _ _

/-- Sorting goes by the ranks of the keys. -/
theorem sort_eq_mergeSort (h : ∀ row ∈ rows, row.Ordered keys) :
    sort keys rows = rows.mergeSort fun a b => compareRanks keys a b != .gt := by
  have hmap := List.map_mergeSort (f := id) (l := rows)
    (r := fun a b => compareRows keys a b != .gt) (s := fun a b => compareRanks keys a b != .gt)
    (fun a ha b hb => by rw [compareRows_eq (h a ha) (h b hb)]; rfl)
  rw [List.map_id, List.map_id] at hmap
  exact hmap

theorem isLE_eq_bne_gt (o : Ordering) : (o != .gt) = o.isLE := by
  cases o <;> rfl

theorem isLE_trans (a b c : Row) (hab : (compareRanks keys a b != .gt) = true)
    (hbc : (compareRanks keys b c != .gt) = true) : (compareRanks keys a c != .gt) = true := by
  rw [isLE_eq_bne_gt] at *
  exact Std.TransCmp.isLE_trans hab hbc

theorem isLE_total (a b : Row) :
    (compareRanks keys a b != .gt || compareRanks keys b a != .gt) = true := by
  rw [compareRanks_swap keys b a]
  cases compareRanks keys a b <;> rfl

theorem sort_pairwise (h : ∀ row ∈ rows, row.Ordered keys) :
    (sort keys rows).Pairwise fun a b => (compareRanks keys a b).isLE = true := by
  rw [sort_eq_mergeSort h]
  apply (List.pairwise_mergeSort isLE_trans isLE_total rows).imp
  intro a b hab
  rwa [← isLE_eq_bne_gt]

/-- Rows of which no two are level are sorted strictly. -/
theorem sort_strict (h : ∀ row ∈ rows, row.Ordered keys)
    (hne : rows.Pairwise fun a b => compareRanks keys a b ≠ .eq) :
    (sort keys rows).Pairwise (Row.Before keys) := by
  have hne' : (sort keys rows).Pairwise fun a b => compareRanks keys a b ≠ .eq := by
    refine hne.perm (sort_perm keys rows).symm fun hab heq => hab ?_
    exact Std.OrientedCmp.eq_symm heq
  apply ((sort_pairwise h).and hne').imp
  intro a b hab
  unfold Row.Before
  cases hc : compareRanks keys a b with
  | lt => rfl
  | eq => exact absurd hc hab.2
  | gt => simp [hc] at hab

/-- There is one strict order of rows. -/
theorem eq_of_strict {l l' : List Row} (hl : l.Pairwise (Row.Before keys))
    (hl' : l'.Pairwise (Row.Before keys)) (hp : l.Perm l') : l = l' := by
  refine List.Perm.eq_of_pairwise ?_ hl hl' hp
  intro a b _ _ hab hba
  exact absurd (hab.trans hba) Row.Before.irrefl

/-- Sorting what remains of the rows gives what remains of the sorted rows. -/
theorem sort_filter (h : ∀ row ∈ rows, row.Ordered keys) (p : Row → Bool) :
    sort keys (rows.filter p) = (sort keys rows).filter p := by
  rw [sort_eq_mergeSort h, sort_eq_mergeSort fun row hrow => h row (List.mem_of_mem_filter hrow)]
  exact mergeSort_filter isLE_trans isLE_total p rows

end Table
end RecordQuery.Store
