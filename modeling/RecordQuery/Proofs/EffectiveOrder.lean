import Mathlib.Order.RelClasses
import RecordQuery.Proofs.Plans
import RecordQuery.Proofs.Records
import RecordQuery.Proofs.Verdicts

/-!
# The order in force

A client may name a field more than once, in either direction. Only the first criterion of every
field is kept, and the unique key is added unless it is there already. Nothing that the client asked
for is lost by that, and rows that differ in the unique key are never level.

* `compareRows_firstOfEach`: later criteria on a field are without effect.
* `Metadata.effectiveSort_eq`: the order in force is the one asked for, or the default one, and at
  most one criterion more.
* `Metadata.OrderLaws`: what the order in force is good for.
* `Validator.accepted_order_laws`: the order of every specification that a validator gives obeys
  the laws.
-/

namespace RecordQuery

open RecordQuery.Store

namespace Store

/-! ## Level cells and rows -/

theorem Cell.eq_nan_of_isNan {a : Cell} (h : a.isNan = true) : a = .real .nan := by
  cases a with
  | real x =>
    cases x with
    | nan => rfl
    | infinity => cases h
    | finite => cases h
  | _ => cases h

/-- Swapping two cells swaps their order, even if they do not compare. -/
theorem Cell.order_swap (a b : Cell) : a.order b = (b.order a).swap := by
  by_cases ha : a.isNan = true
  · obtain rfl := eq_nan_of_isNan ha
    cases b with
    | real y => cases y <;> rfl
    | _ => rfl
  by_cases hb : b.isNan = true
  · obtain rfl := eq_nan_of_isNan hb
    cases a with
    | real x => cases x <;> rfl
    | _ => rfl
  rw [Bool.not_eq_true] at ha hb
  rw [order_eq_compareRank ha hb, order_eq_compareRank hb ha, compareRank_swap]

/-- Cells are level whatever the direction. -/
theorem Direction.order_eq_iff {direction : Direction} {a b : Cell} :
    Direction.order direction a b = .eq ↔ a.order b = .eq := by
  cases direction with
  | asc => rfl
  | desc => rw [Direction.order, Cell.order_swap, Ordering.swap_eq_eq]

theorem compareRows_append (keys keys' : List SortKey) (a b : Row) :
    compareRows (keys ++ keys') a b = (compareRows keys a b).then (compareRows keys' a b) := by
  induction keys with
  | nil => rfl
  | cons k keys ih => rw [List.cons_append, compareRows, compareRows, ih, Ordering.then_assoc]

/-- Two rows are level only if all their keys are. -/
theorem order_eq_of_compareRows {keys : List SortKey} {a b : Row} (h : compareRows keys a b = .eq)
    {k : SortKey} (hk : k ∈ keys) : (a.cell k.column).order (b.cell k.column) = .eq := by
  induction keys with
  | nil => cases hk
  | cons k' keys ih =>
    rw [compareRows, Ordering.then_eq_eq] at h
    rcases List.mem_cons.1 hk with rfl | hk
    · exact Direction.order_eq_iff.1 h.1
    · exact ih h.2 hk

/-- Criteria on a field in which two rows are level do not tell them apart. -/
theorem compareRows_filter {field : String} {a b : Row}
    (hlevel : (a.cell field).order (b.cell field) = .eq) (sort : List SortCriterion) :
    compareRows (sortKeys (sort.filter fun t => t.field != field)) a b =
      compareRows (sortKeys sort) a b := by
  induction sort with
  | nil => rfl
  | cons t rest ih =>
    rw [sortKeys_cons, compareRows]
    by_cases hfield : t.field = field
    · rw [List.filter_cons_of_neg (by simp [hfield]), ih, hfield,
        Direction.order_eq_iff.2 hlevel, Ordering.eq_then]
    · rw [List.filter_cons_of_pos (by simp [hfield]), sortKeys_cons, compareRows, ih]

/-- Later criteria on a field are without effect, in whatever direction. -/
theorem compareRows_firstOfEach (sort : List SortCriterion) (a b : Row) :
    compareRows (sortKeys (Validator.firstOfEach sort)) a b = compareRows (sortKeys sort) a b := by
  induction sort with
  | nil => rfl
  | cons s rest ih =>
    rw [Validator.firstOfEach, sortKeys_cons, sortKeys_cons, compareRows, compareRows]
    -- what is left out counts only for rows that are level in the field of the first criterion
    by_cases hlevel : (a.cell s.field).order (b.cell s.field) = .eq
    · rw [compareRows_filter hlevel, ih]
    · have hne : Direction.order s.direction (a.cell s.field) (b.cell s.field) ≠ .eq :=
        fun heq => hlevel (Direction.order_eq_iff.1 heq)
      cases hfirst : Direction.order s.direction (a.cell s.field) (b.cell s.field) with
      | eq => exact absurd hfirst hne
      | lt => rfl
      | gt => rfl

/-- A key that an order has already breaks none of its ties. -/
theorem compareRows_then_of_mem {sort : List SortCriterion} {s : SortCriterion} (hs : s ∈ sort)
    (direction : Direction) (a b : Row) :
    (compareRows (sortKeys sort) a b).then
        (Direction.order direction (a.cell s.field) (b.cell s.field)) =
      compareRows (sortKeys sort) a b := by
  cases h : compareRows (sortKeys sort) a b with
  | eq =>
    have hlevel := order_eq_of_compareRows h (List.mem_map_of_mem hs)
    exact Direction.order_eq_iff.2 hlevel
  | lt => rfl
  | gt => rfl

/-- Rows of which no two are level are in a strict total order. -/
theorem isStrictTotalOrder_compareRows {keys : List SortKey} {rows : List Row}
    (ho : ∀ row ∈ rows, row.Ordered keys)
    (hne : rows.Pairwise fun a b => compareRanks keys a b ≠ .eq) :
    IsStrictTotalOrder {row // row ∈ rows} fun a b => compareRows keys a.1 b.1 = .lt := by
  have heq (a b : {row // row ∈ rows}) : compareRows keys a.1 b.1 = compareRanks keys a.1 b.1 :=
    compareRows_eq (ho a.1 a.2) (ho b.1 b.2)
  have : Std.Symm fun a b => compareRanks keys a b ≠ .eq :=
    ⟨fun _ _ hab hba => hab (Std.OrientedCmp.eq_symm hba)⟩
  have happart (a b : {row // row ∈ rows}) (hab : a ≠ b) : compareRanks keys a.1 b.1 ≠ .eq :=
    hne.forall a.2 b.2 fun h => hab (Subtype.ext h)
  simp only [heq]
  exact {
    irrefl := fun a (h : Row.Before keys a.1 a.1) => absurd h Row.Before.irrefl
    trans := fun a b c (hab : Row.Before keys a.1 b.1) hbc => Row.Before.trans hab hbc
    trichotomous := by
      intro a b hab hba
      by_contra hne
      cases hcmp : compareRanks keys a.1 b.1 with
      | lt => exact hab hcmp
      | eq => exact happart a b hne hcmp
      | gt => exact hba (Std.OrientedCmp.gt_iff_lt.1 hcmp) }

end Store

/-! ## The order in force -/

/-- The direction of the last criterion, or else the ascending one. -/
def lastDirection (sort : List SortCriterion) : Direction :=
  (sort.getLast?.map (·.direction)).getD .asc

namespace Metadata

variable (md : Metadata)

/-- The order asked for, or else the default one. -/
def askedSort (requested : List SortCriterion) : List SortCriterion :=
  if requested.isEmpty then md.model.defaultSort else requested

/-- What the unique key adds to an order. -/
def tieBreak (sort : List SortCriterion) : List SortCriterion :=
  if sort.all fun s => s.field != md.model.uniqueKey then
    [{ field := md.model.uniqueKey, direction := lastDirection sort }]
  else []

theorem effectiveSort_eq (requested : List SortCriterion) :
    md.effectiveSort requested =
      md.askedSort requested ++ md.tieBreak (md.askedSort requested) := by
  unfold effectiveSort tieBreak
  change (if (md.askedSort requested).all (fun s => s.field != md.model.uniqueKey) then
      md.askedSort requested ++ [⟨md.model.uniqueKey, lastDirection (md.askedSort requested)⟩]
    else md.askedSort requested) = _
  split
  · rfl
  · rw [List.append_nil]

variable {md}

theorem tieBreak_of_mem {sort : List SortCriterion} {s : SortCriterion} (hs : s ∈ sort)
    (hkey : s.field = md.model.uniqueKey) : md.tieBreak sort = [] := by
  rw [tieBreak, if_neg]
  intro hall
  simpa [hkey] using List.all_eq_true.1 hall s hs

theorem effectiveSort_ne_nil (requested : List SortCriterion) :
    md.effectiveSort requested ≠ [] := by
  obtain ⟨s, hs, -⟩ := md.uniqueKey_mem_effectiveSort requested
  exact List.ne_nil_of_mem hs

theorem effectiveSort_idem (requested : List SortCriterion) :
    md.effectiveSort (md.effectiveSort requested) = md.effectiveSort requested := by
  obtain ⟨s, hs, hkey⟩ := md.uniqueKey_mem_effectiveSort requested
  have hasked : md.askedSort (md.effectiveSort requested) = md.effectiveSort requested := by
    rw [askedSort, if_neg (by simpa using effectiveSort_ne_nil requested)]
  rw [effectiveSort_eq md (md.effectiveSort requested), hasked, tieBreak_of_mem hs hkey,
    List.append_nil]

/-- The unique key breaks the ties that are left, in the direction of the last criterion. -/
theorem compareRows_effectiveSort (requested : List SortCriterion) (a b : Row) :
    compareRows (sortKeys (md.effectiveSort requested)) a b =
      (compareRows (sortKeys (md.askedSort requested)) a b).then
        (Direction.order (lastDirection (md.askedSort requested))
          (a.cell md.model.uniqueKey) (b.cell md.model.uniqueKey)) := by
  rw [effectiveSort_eq, sortKeys, List.map_append, compareRows_append]
  by_cases hall : (md.askedSort requested).all fun s => s.field != md.model.uniqueKey
  · rw [tieBreak, if_pos hall]
    simp only [List.map_cons, List.map_nil, compareRows, Ordering.then_eq]
    rfl
  · obtain ⟨s, hs, hkey⟩ : ∃ s ∈ md.askedSort requested, s.field = md.model.uniqueKey := by
      simpa using hall
    rw [tieBreak_of_mem hs hkey, ← hkey, compareRows_then_of_mem hs]
    exact Ordering.then_eq

/-- Leaving out what repeats a field does not change how rows are asked to be ranked. -/
theorem compareRows_askedSort (full : List SortCriterion) (a b : Row) :
    compareRows (sortKeys (md.askedSort (Validator.firstOfEach full))) a b =
      compareRows (sortKeys (md.askedSort full)) a b := by
  cases full with
  | nil => rfl
  | cons s rest => exact compareRows_firstOfEach (s :: rest) a b

variable (md)

/-- What the order in force is good for, if the criteria asked for come to `full` and the first of
each field are `kept`. -/
structure OrderLaws (full kept : List SortCriterion) : Prop where
  nonempty : md.effectiveSort kept ≠ []
  has_key : ∃ s ∈ md.effectiveSort kept, s.field = md.model.uniqueKey
  begins : md.askedSort kept <+: md.effectiveSort kept
  /-- Rows that the unique key tells apart are in a strict total order. They have no NaN in a column
  of the order, as no sound table has. -/
  total : ∀ rows, Keyed md.model.uniqueKey rows →
    (∀ row ∈ rows, row.Ordered (sortKeys (md.effectiveSort kept))) →
    IsStrictTotalOrder {row // row ∈ rows} fun a b =>
      compareRows (sortKeys (md.effectiveSort kept)) a.1 b.1 = .lt
  /-- Rows rank as by all the criteria; ties are broken by the unique key, in the direction of the
  last criterion that is kept. -/
  ranks : ∀ a b : Row, compareRows (sortKeys (md.effectiveSort kept)) a b =
    (compareRows (sortKeys (md.askedSort full)) a b).then
      (Direction.order (lastDirection (md.askedSort kept))
        (a.cell md.model.uniqueKey) (b.cell md.model.uniqueKey))
  stable : md.effectiveSort (md.effectiveSort kept) = md.effectiveSort kept

theorem orderLaws_firstOfEach (full : List SortCriterion) :
    md.OrderLaws full (Validator.firstOfEach full) where
  nonempty := effectiveSort_ne_nil _
  has_key := md.uniqueKey_mem_effectiveSort _
  begins := by
    rw [effectiveSort_eq]
    exact List.prefix_append _ _
  total := by
    intro rows hkeyed ho
    obtain ⟨k, hk, hkey⟩ := md.uniqueKey_mem_sortKeys (Validator.firstOfEach full)
    exact isStrictTotalOrder_compareRows ho (hkeyed.pairwise_ne hk hkey ho)
  ranks := by
    intro a b
    rw [compareRows_effectiveSort, compareRows_askedSort]
  stable := effectiveSort_idem _

end Metadata

/-! ## The order of a specification -/

/-- What is accepted comes from the members that may be used, if all of these are accepted. -/
theorem mapM_filter_eq_ok {α β : Type} {f : α → Except Refusal β} {p : α → Bool} {xs : List α}
    (hp : ∀ x ∈ xs, p x = true → ∃ y, f x = .ok y)
    (hn : ∀ x ∈ xs, p x = false → ∃ e, f x = .error e) :
    (xs.filter p).mapM f = .ok ((xs.map f).filterMap Except.toOption) := by
  induction xs with
  | nil => rfl
  | cons x xs ih =>
    have ih := ih (fun x' hx' => hp x' (List.mem_cons_of_mem x hx'))
      (fun x' hx' => hn x' (List.mem_cons_of_mem x hx'))
    by_cases hx : p x = true
    · obtain ⟨y, hy⟩ := hp x List.mem_cons_self hx
      rw [List.filter_cons_of_pos hx, List.mapM_cons, ih, hy, List.map_cons, hy]
      rfl
    · obtain ⟨e, he⟩ := hn x List.mem_cons_self (by simpa using hx)
      rw [List.filter_cons_of_neg hx, ih, List.map_cons, he]
      rfl

namespace Validator

variable {v : Validator}

/-- A criterion on a field that may be used passes its check, or has a violation that no mode
drops. -/
theorem checkSort_of_sortable {draft : DraftSort}
    (hfield : v.metadata.isSortable draft.field = true) :
    (∃ s, v.checkSort draft = .ok s) ∨
      ∃ w, v.checkSort draft = .error (.violations [w]) ∧ w.reason.isWhitelist = false := by
  unfold checkSort
  simp only [hfield, Bool.not_true, Bool.false_eq_true, if_false]
  split
  · exact .inl ⟨_, rfl⟩
  · exact .inr ⟨_, rfl, rfl⟩

theorem checkSort_of_not_sortable {draft : DraftSort}
    (hfield : v.metadata.isSortable draft.field = false) :
    v.checkSort draft = refuse draft.field .notSortable (.text draft.field) := by
  simp [checkSort, hfield]

/-- The criteria of a specification are the first of each field, of those that may be used. -/
theorem sort_of_validate {draft : DraftQuery} {outcome : Outcome} {spec : Specification}
    (h : v.validate draft = .ok outcome) (hs : outcome.spec = some spec) :
    ∃ full, (draft.sort.filter fun s => v.metadata.isSortable s.field).mapM v.checkSort = .ok full ∧
      (v.strict = true → ∀ s ∈ draft.sort, v.metadata.isSortable s.field = true) ∧
      spec.sort = firstOfEach full := by
  obtain ⟨c, hc, rfl, hdrops⟩ := validate_eq_ok h hs
  obtain ⟨filters, sorts, pagination, -, hsorts, -, hviolations, haccepted⟩ := check_eq_ok hc
  -- a criterion that is refused leaves a violation, which has to be one that is dropped
  have hdropped {d : DraftSort} (hd : d ∈ draft.sort) {w : Violation}
      (hw : v.checkSort d = .error (.violations [w])) : v.drops w = true := by
    have hmem : w ∈ sorts.violations :=
      (mem_violations_iff hsorts).2 ⟨[w], hw ▸ List.mem_map_of_mem hd, List.mem_singleton_self w⟩
    exact hdrops w (by simp [hviolations, hmem])
  refine ⟨sorts.accepted, ?_, ?_, by rw [haccepted]⟩
  · rw [accepted_of_gather hsorts]
    refine mapM_filter_eq_ok ?_ ?_
    · intro d hd hfield
      rcases checkSort_of_sortable hfield with hok | ⟨w, hw, hreason⟩
      · exact hok
      · have := hdropped hd hw
        simp [drops, hreason] at this
    · intro d _ hfield
      exact ⟨_, checkSort_of_not_sortable hfield⟩
  · intro hstrict d hd
    by_contra hfield
    have := hdropped hd (checkSort_of_not_sortable (by simpa using hfield))
    simp [drops, hstrict] at this

/-- The order in force for a specification does what its draft asks for. The criteria on fields that
may be used all pass their checks, and in strict mode there are no others; the specification keeps
the first criterion of each field. The order in force begins with what is kept, or with the default
order if nothing is, and ranks rows as all the criteria would, with their ties broken by the unique
key in the direction of the last one. So it is a strict total order of rows that the key tells
apart, and it stays the same if it is completed again. -/
theorem accepted_order_laws {draft : DraftQuery} {outcome : Outcome} {spec : Specification}
    (h : v.validate draft = .ok outcome) (hs : outcome.spec = some spec) :
    ∃ full, (draft.sort.filter fun s => v.metadata.isSortable s.field).mapM v.checkSort = .ok full ∧
      (v.strict = true → ∀ s ∈ draft.sort, v.metadata.isSortable s.field = true) ∧
      spec.sort = firstOfEach full ∧ v.metadata.OrderLaws full spec.sort := by
  obtain ⟨full, hfull, hstrict, hsort⟩ := sort_of_validate h hs
  refine ⟨full, hfull, hstrict, hsort, ?_⟩
  rw [hsort]
  exact v.metadata.orderLaws_firstOfEach full

/-- Films by their titles, downwards and then upwards, with a field between that cannot be used. -/
def filmsBothWays : DraftQuery where
  grammar := .simple
  sort := [⟨"title", .text "desc"⟩, ⟨"internal_notes", .text "asc"⟩, ⟨"rating", .text ""⟩,
    ⟨"title", .text "ASC"⟩]

theorem filmsBothWays_order_laws :
    ∃ outcome spec, lenientFilms.validate filmsBothWays = .ok outcome ∧
      outcome.spec = some spec ∧ spec.sort = [⟨"title", .desc⟩, ⟨"rating", .asc⟩] ∧
      lenientFilms.metadata.OrderLaws [⟨"title", .desc⟩, ⟨"rating", .asc⟩, ⟨"title", .asc⟩]
        spec.sort := by
  refine ⟨_, _, rfl, rfl, rfl, ?_⟩
  have hread : lenientFilms.validate filmsBothWays = .ok _ := rfl
  obtain ⟨full, hfull, -, -, hlaws⟩ := accepted_order_laws hread rfl
  cases hfull
  exact hlaws

end Validator
end RecordQuery
