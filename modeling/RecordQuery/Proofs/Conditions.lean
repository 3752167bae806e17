import RecordQuery.Proofs.JsonPieces
import RecordQuery.Proofs.Results
import RecordQuery.Request.RowWindow

/-!
# Trees of conditions

The object of a column may be a group of conditions, and these may be groups in their turn. A place
in such a tree is the list of the indices that lead to it from group to group, so that one place is
to the left of another exactly if it is less in the order of lists.

* `conditionAt?` finds the condition at a place.
* `Holds` reads a tree under an assignment of truth to the places of its leaves.
* `Reading` is what a list of filters has to say about a tree to mean it.
* `columnFilters_means`: the filters of a tree mean it, and there are none exactly if it has
  alternatives or strays.
-/

namespace RecordQuery

/-! ## Lists of results -/

theorem exists_getElem?_of_forall₂ {α β : Type} {R : α → β → Prop} {xs : List α} {ys : List β}
    (h : List.Forall₂ R xs ys) {i : Nat} {x : α} (hx : xs[i]? = some x) :
    ∃ y, ys[i]? = some y ∧ R x y := by
  induction h generalizing i with
  | nil => cases hx
  | @cons x' y xs ys hxy _ ih =>
    cases i with
    | zero =>
      cases hx
      exact ⟨y, rfl, hxy⟩
    | succ i => exact ih hx

/-- Lists that are put together of lists whose members come in pairs. -/
theorem forall₂_flatMap {α β γ : Type} {R : β → γ → Prop} {f : α → List β}
    {g : α → List γ} {xs : List α} (h : ∀ x ∈ xs, List.Forall₂ R (f x) (g x)) :
    List.Forall₂ R (xs.flatMap f) (xs.flatMap g) := by
  induction xs with
  | nil => exact .nil
  | cons x xs ih =>
    rw [List.flatMap_cons, List.flatMap_cons]
    exact List.rel_append (h x List.mem_cons_self)
      (ih fun y hy => h y (List.mem_cons_of_mem x hy))

/-- What there is for each result, beside the results. -/
theorem exists_pairs {α β γ : Type} {R : α → β → γ → Prop} {xs : List α} {zs : List γ}
    (h : List.Forall₂ (fun x z => ∃ y, R x y z) xs zs) :
    ∃ pairs : List (β × γ), List.Forall₂ (fun x p => R x p.1 p.2) xs pairs ∧
      pairs.map (·.2) = zs := by
  induction h with
  | nil => exact ⟨[], .nil, rfl⟩
  | @cons x z xs zs hxz _ ih =>
    obtain ⟨y, hy⟩ := hxz
    obtain ⟨pairs, hpairs, rfl⟩ := ih
    exact ⟨(y, z) :: pairs, .cons hy hpairs, rfl⟩

namespace RowWindow

open GridModel (entry)

/-- What a value is among conditions: an object without conditions of its own, a group, which may
be joined by AND, or no object at all. -/
inductive Condition where
  | leaf (spec : Entries)
  | group (byAnd : Bool) (members : List Value)
  | stray

/-- The group is joined by AND, as it is if it names no operator. -/
def isByAnd (spec : Entries) : Bool :=
  ((entry spec "operator").orElse (.text "AND")).trimmed.map Char.toUpper == ['A', 'N', 'D']

def condition : Value → Condition
  | .mapping spec =>
    match Entries.get? spec "conditions" with
    | some (.list members) => .group (isByAnd spec) members
    | _ => .leaf spec
  | _ => .stray

/-- The condition at a place. -/
def conditionAt? : Value → List Nat → Option Condition
  | v, [] => some (condition v)
  | v, i :: place =>
    match condition v with
    | .group _ members => members[i]?.bind fun w => conditionAt? w place
    | _ => none

/-- The tree holds where its leaves are as the assignment says. -/
inductive Holds : (List Nat → Prop) → Value → Prop where
  | leaf {truth : List Nat → Prop} {v : Value} {spec : Entries}
    (hv : condition v = .leaf spec) (h : truth []) : Holds truth v
  | all {truth : List Nat → Prop} {v : Value} {members : List Value}
    (hv : condition v = .group true members)
    (h : ∀ i w, members[i]? = some w → Holds (fun place => truth (i :: place)) w) : Holds truth v
  | any {truth : List Nat → Prop} {v w : Value} {members : List Value} {i : Nat}
    (hv : condition v = .group false members) (hw : members[i]? = some w)
    (h : Holds (fun place => truth (i :: place)) w) : Holds truth v

namespace Condition

/-- Groups are not empty, and the values of a set, if it has any, are a list. -/
def WellFormed : Condition → Prop
  | leaf spec =>
    isSet spec = true → ∃ values, (entry spec "values").orElse (.list []) = .list values
  | group _ members => members ≠ []
  | stray => True

/-- There is nothing to choose from. -/
def Joined : Condition → Prop
  | leaf _ => True
  | group byAnd members => byAnd = true ∨ members.length < 2
  | stray => False

end Condition

/-- All conditions of the tree are such. -/
def Everywhere (P : Condition → Prop) (v : Value) : Prop :=
  ∀ place c, conditionAt? v place = some c → P c

/-- The filter that an object without conditions stands for. -/
def leafFilter (field : String) (spec : Entries) : DraftFilter :=
  if isSet spec then
    { field, operator := "in", value := (entry spec "values").orElse (.list []) }
  else
    let operator := canonicalOperator ((entry spec "type").orElse (.text "equals"))
    { field, operator, value := operands operator spec }

/-- The filters are those of the leaves at the places. These are all the leaves, from left to right
and each once, and together they say what the tree says. -/
structure Reading (field : String) (v : Value) (places : List (List Nat))
    (filters : List DraftFilter) : Prop where
  ordered : places.Pairwise (· < ·)
  mem_iff : ∀ place, place ∈ places ↔ ∃ spec, conditionAt? v place = some (.leaf spec)
  filters_eq : List.Forall₂
    (fun place filter => ∃ spec, conditionAt? v place = some (.leaf spec) ∧
      filter = leafFilter field spec) places filters
  holds_iff : ∀ truth, Holds truth v ↔ ∀ place ∈ places, truth place

/-! ## The shape of a tree -/

section Shape

variable {v w : Value} {spec : Entries} {byAnd : Bool} {members : List Value}
  {P : Condition → Prop}

theorem condition_mapping (spec : Entries) :
    (∃ members, spec.get? "conditions" = some (.list members) ∧
      condition (.mapping spec) = .group (isByAnd spec) members) ∨
    ((∀ members, spec.get? "conditions" ≠ some (.list members)) ∧
      condition (.mapping spec) = .leaf spec) := by
  simp only [condition]
  split
  · rename_i members hmembers
    exact .inl ⟨members, hmembers, rfl⟩
  · rename_i hnone
    exact .inr ⟨hnone, rfl⟩

theorem eq_of_condition_leaf (h : condition v = .leaf spec) : v = .mapping spec := by
  cases v with
  | mapping spec' =>
    rcases condition_mapping spec' with ⟨members, -, hgroup⟩ | ⟨-, hleaf⟩
    · rw [hgroup] at h
      cases h
    · rw [hleaf] at h
      cases h
      rfl
  | _ => cases h

theorem eq_of_condition_group (h : condition v = .group byAnd members) :
    ∃ spec, v = .mapping spec ∧ Entries.get? spec "conditions" = some (.list members) ∧
      byAnd = isByAnd spec := by
  cases v with
  | mapping spec =>
    rcases condition_mapping spec with ⟨members', hmembers, hgroup⟩ | ⟨-, hleaf⟩
    · rw [hgroup] at h
      cases h
      exact ⟨spec, rfl, hmembers, rfl⟩
    · rw [hleaf] at h
      cases h
  | _ => cases h

theorem sizeOf_lt_of_member (h : condition v = .group byAnd members) (hw : w ∈ members) :
    sizeOf w < sizeOf v := by
  obtain ⟨spec, rfl, hmembers, -⟩ := eq_of_condition_group h
  have hlist := List.sizeOf_lt_of_mem (Json.mem_of_get? hmembers)
  have hmember := List.sizeOf_lt_of_mem hw
  simp only [Value.mapping.sizeOf_spec, Value.list.sizeOf_spec, Prod.mk.sizeOf_spec] at hlist ⊢
  omega

/-- What holds of strays and of leaves, and of a group if it holds of its members, holds of all
trees. -/
theorem tree_induction {P : Value → Prop} (stray : ∀ v, condition v = .stray → P v)
    (leaf : ∀ v spec, condition v = .leaf spec → P v)
    (group : ∀ v byAnd members, condition v = .group byAnd members →
      (∀ w ∈ members, P w) → P v) (v : Value) : P v := by
  induction h : sizeOf v using Nat.strongRecOn generalizing v with
  | ind n ih =>
    subst h
    cases hv : condition v with
    | stray => exact stray v hv
    | leaf spec => exact leaf v spec hv
    | group byAnd members =>
      exact group v byAnd members hv fun w hw => ih _ (sizeOf_lt_of_member hv hw) w rfl

theorem conditionAt?_cons (h : condition v = .group byAnd members) (i : Nat) (place : List Nat) :
    conditionAt? v (i :: place) = members[i]?.bind fun w => conditionAt? w place := by
  rw [conditionAt?, h]

theorem conditionAt?_cons_eq_some (h : condition v = .group byAnd members) {i : Nat}
    {place : List Nat} {c : Condition} :
    conditionAt? v (i :: place) = some c ↔
      ∃ w, members[i]? = some w ∧ conditionAt? w place = some c := by
  rw [conditionAt?_cons h, Option.bind_eq_some_iff]

/-- Nothing is below a leaf or a stray. -/
theorem conditionAt?_of_no_group (h : ∀ byAnd members, condition v ≠ .group byAnd members)
    {place : List Nat} {c : Condition} :
    conditionAt? v place = some c ↔ place = [] ∧ c = condition v := by
  cases place with
  | nil => simp [conditionAt?, eq_comm]
  | cons i place =>
    have hnone : conditionAt? v (i :: place) = none := by
      rw [conditionAt?]
      split
      · rename_i byAnd members hgroup
        exact absurd hgroup (h byAnd members)
      · rfl
    simp [hnone]

theorem everywhere_of_no_group (h : ∀ byAnd members, condition v ≠ .group byAnd members) :
    Everywhere P v ↔ P (condition v) := by
  constructor
  · intro hall
    exact hall [] _ rfl
  · intro hv place c hc
    rw [((conditionAt?_of_no_group h).1 hc).2]
    exact hv

theorem everywhere_group (h : condition v = .group byAnd members) :
    Everywhere P v ↔ P (.group byAnd members) ∧ ∀ w ∈ members, Everywhere P w := by
  constructor
  · intro hall
    refine ⟨hall [] _ (by rw [conditionAt?, h]), fun w hw place c hc => ?_⟩
    obtain ⟨i, hi⟩ := List.getElem?_of_mem hw
    exact hall (i :: place) c ((conditionAt?_cons_eq_some h).2 ⟨w, hi, hc⟩)
  · rintro ⟨hv, hmembers⟩ place c hc
    cases place with
    | nil =>
      rw [conditionAt?, h, Option.some.injEq] at hc
      exact hc ▸ hv
    | cons i place =>
      obtain ⟨w, hw, hc⟩ := (conditionAt?_cons_eq_some h).1 hc
      exact hmembers w (List.mem_of_getElem? hw) place c hc

end Shape

/-! ## Filters of a tree, level by level -/

section Filters

variable {v : Value} {spec : Entries} {byAnd : Bool} {members : List Value} (field : String)

theorem conditions?_eq (spec : Entries) :
    conditions? field spec =
      match spec.get? "conditions" with
      | some (.list members) => some (members.length, allFilters field members)
      | _ => none := by
  induction spec with
  | nil => rfl
  | cons e rest ih =>
    obtain ⟨key, v⟩ := e
    unfold conditions?
    by_cases hkey : key = "conditions"
    · subst hkey
      have hget : Entries.get? (("conditions", v) :: rest) "conditions" = some v := rfl
      rw [if_pos rfl, hget]
      cases v <;> rfl
    · have hget : Entries.get? ((key, v) :: rest) "conditions" =
          Entries.get? rest "conditions" := by
        simp [Entries.get?, hkey]
      rw [if_neg hkey, hget]
      exact ih

theorem allFilters_eq (members : List Value) :
    allFilters field members = (members.mapM (columnFilters field)).map List.flatten :=
  append_eq_mapM (g := allFilters field) rfl (fun _ _ => rfl) members

theorem joins_eq_true_iff {count : Nat} :
    joins spec count = true ↔ isByAnd spec = true ∨ count < 2 := by
  unfold joins isByAnd
  rw [Bool.or_eq_true, decide_eq_true_eq, or_comm]

theorem columnFilters_stray (h : condition v = .stray) :
    columnFilters field v = .error (.malformed .conditionNotObject) := by
  cases v with
  | mapping spec =>
    rcases condition_mapping spec with ⟨members, -, hgroup⟩ | ⟨-, hleaf⟩
    · rw [hgroup] at h
      cases h
    · rw [hleaf] at h
      cases h
  | _ => rfl

/-- An object without conditions has its own filter only. -/
theorem columnFilters_leaf (h : condition v = .leaf spec) (hwell : (condition v).WellFormed) :
    columnFilters field v = .ok [leafFilter field spec] := by
  have hplain : plainFilter field spec = .ok (leafFilter field spec) := by
    unfold plainFilter leafFilter
    split
    · rename_i hset
      rw [h] at hwell
      obtain ⟨values, hvalues⟩ := hwell hset
      rw [setValues, hvalues]
      rfl
    · rfl
  obtain rfl := eq_of_condition_leaf h
  have hnone : conditions? field spec = none := by
    rw [conditions?_eq]
    rcases condition_mapping spec with ⟨members, -, hgroup⟩ | ⟨hno, -⟩
    · rw [hgroup] at h
      cases h
    · split
      · rename_i members hmembers
        exact absurd hmembers (hno members)
      · rfl
  rw [columnFilters, hnone, hplain]
  rfl

/-- A group has the filters of its members, if they may be joined. -/
theorem columnFilters_group (h : condition v = .group byAnd members) :
    columnFilters field v =
      if byAnd = true ∨ members.length < 2 then
        (members.mapM (columnFilters field)).map List.flatten
      else .error (.malformed (.alternatives field)) := by
  obtain ⟨spec, rfl, hmembers, rfl⟩ := eq_of_condition_group h
  rw [columnFilters, conditions?_eq, hmembers]
  simp only [joins_eq_true_iff, allFilters_eq]

end Filters

/-! ## Readings -/

section Readings

variable {field : String} {v : Value} {spec : Entries} {byAnd : Bool} {members : List Value}

theorem Reading.of_leaf (h : condition v = .leaf spec) :
    Reading field v [[]] [leafFilter field spec] := by
  have hat : ∀ place c, conditionAt? v place = some c ↔ place = [] ∧ c = .leaf spec := by
    intro place c
    rw [conditionAt?_of_no_group (by simp [h]), h]
  refine ⟨List.pairwise_singleton _ _, fun place => ?_, .cons ⟨spec, ?_, rfl⟩ .nil, fun truth => ?_⟩
  · simp [hat]
  · rw [hat]
    exact ⟨rfl, rfl⟩
  · rw [List.forall_mem_singleton]
    constructor
    · rintro (⟨-, htruth⟩ | ⟨hv, -⟩ | ⟨hv, -, -⟩)
      · exact htruth
      · rw [h] at hv
        cases hv
      · rw [h] at hv
        cases hv
    · exact .leaf h

theorem holds_group (h : condition v = .group byAnd members)
    (hjoined : (Condition.group byAnd members).Joined)
    (hwell : (Condition.group byAnd members).WellFormed) (truth : List Nat → Prop) :
    Holds truth v ↔
      ∀ i w, members[i]? = some w → Holds (fun place => truth (i :: place)) w := by
  cases byAnd with
  | true =>
    constructor
    · rintro (⟨hv, -⟩ | ⟨hv, hall⟩ | ⟨hv, -, -⟩)
      · rw [h] at hv
        cases hv
      · rw [h] at hv
        cases hv
        exact hall
      · rw [h] at hv
        cases hv
    · exact .all h
  | false =>
    -- Of the groups that are not joined by AND only those with one member are left.
    obtain ⟨w, rfl⟩ : ∃ w, members = [w] := by
      have hlength := hjoined.resolve_left Bool.false_ne_true
      have hne := List.length_pos_of_ne_nil hwell
      exact List.length_eq_one_iff.1 (by omega)
    constructor
    · rintro (⟨hv, -⟩ | ⟨hv, -⟩ | @⟨_, _, u, _, i, hv, hu, hholds⟩) j w' hw'
      · rw [h] at hv
        cases hv
      · rw [h] at hv
        cases hv
      · rw [h] at hv
        cases hv
        obtain rfl : i = 0 := by simpa using (List.getElem?_eq_some_iff.1 hu).1
        obtain rfl : j = 0 := by simpa using (List.getElem?_eq_some_iff.1 hw').1
        rw [hu] at hw'
        cases hw'
        exact hholds
    · intro hall
      exact .any h rfl (hall 0 w rfl)

/-- The places of the members of a group, each behind the index of its member. -/
def placesBelow (readings : List (List (List Nat) × List DraftFilter)) : List (List Nat) :=
  readings.zipIdx.flatMap fun q => q.1.1.map (q.2 :: ·)

section Below

variable {readings : List (List (List Nat) × List DraftFilter)}

theorem mem_placesBelow {place : List Nat} :
    place ∈ placesBelow readings ↔
      ∃ i r below, readings[i]? = some r ∧ below ∈ r.1 ∧ place = i :: below := by
  simp only [placesBelow, List.mem_flatMap, List.mem_map, Prod.exists,
    List.mem_zipIdx_iff_getElem?]
  constructor
  · rintro ⟨places, filters, i, hr, below, hbelow, rfl⟩
    exact ⟨i, places, filters, below, hr, hbelow, rfl⟩
  · rintro ⟨i, places, filters, below, hr, hbelow, rfl⟩
    exact ⟨places, filters, i, hr, below, hbelow, rfl⟩

theorem ordered_placesBelow (h : ∀ r ∈ readings, r.1.Pairwise (· < ·)) :
    (placesBelow readings).Pairwise (· < ·) := by
  rw [placesBelow, List.pairwise_flatMap]
  constructor
  · rintro ⟨r, i⟩ hr
    rw [List.pairwise_map]
    refine (h r (List.mem_of_getElem? (List.mem_zipIdx_iff_getElem?.1 hr))).imp fun hlt => ?_
    exact List.cons_lt_cons_iff.2 (.inr ⟨rfl, hlt⟩)
  · rw [List.pairwise_iff_getElem]
    intro i j hi hj hij x hx y hy
    rw [List.getElem_zipIdx] at hx hy
    obtain ⟨below, -, rfl⟩ := List.mem_map.1 hx
    obtain ⟨below', -, rfl⟩ := List.mem_map.1 hy
    exact List.cons_lt_cons_iff.2 (.inl (by omega))

theorem filters_eq_flatMap :
    (readings.map (·.2)).flatten = readings.zipIdx.flatMap fun q => q.1.2 := by
  conv_lhs => rw [← List.zipIdx_map_fst 0 readings, List.map_map, ← List.flatMap_def]
  rfl

/-- The members' readings, one after the other, are a reading of the group. -/
theorem Reading.of_group (h : condition v = .group byAnd members)
    (hjoined : (Condition.group byAnd members).Joined)
    (hwell : (Condition.group byAnd members).WellFormed)
    (hreadings : List.Forall₂
      (fun w (r : List (List Nat) × List DraftFilter) => Reading field w r.1 r.2)
      members readings) :
    Reading field v (placesBelow readings) (readings.map (·.2)).flatten := by
  have hof : ∀ i (r : List (List Nat) × List DraftFilter), readings[i]? = some r →
      ∃ w, members[i]? = some w ∧ Reading field w r.1 r.2 :=
    fun i r hr => exists_getElem?_of_forall₂ hreadings.flip hr
  refine ⟨ordered_placesBelow fun r hr => ?_, fun place => ?_, ?_, fun truth => ?_⟩
  · obtain ⟨w, -, hreading⟩ := exists_of_mem_right hreadings hr
    exact hreading.ordered
  · rw [mem_placesBelow]
    constructor
    · rintro ⟨i, r, below, hr, hbelow, rfl⟩
      obtain ⟨w, hw, hreading⟩ := hof i r hr
      obtain ⟨spec, hspec⟩ := (hreading.mem_iff below).1 hbelow
      exact ⟨spec, (conditionAt?_cons_eq_some h).2 ⟨w, hw, hspec⟩⟩
    · rintro ⟨spec, hspec⟩
      cases place with
      | nil =>
        rw [conditionAt?, h] at hspec
        cases hspec
      | cons i below =>
        obtain ⟨w, hw, hbelow⟩ := (conditionAt?_cons_eq_some h).1 hspec
        obtain ⟨r, hr, hreading⟩ := exists_getElem?_of_forall₂ hreadings hw
        exact ⟨i, r, below, hr, (hreading.mem_iff below).2 ⟨spec, hbelow⟩, rfl⟩
  · rw [filters_eq_flatMap, placesBelow]
    refine forall₂_flatMap ?_
    rintro ⟨r, i⟩ hr
    obtain ⟨w, hw, hreading⟩ := hof i r (List.mem_zipIdx_iff_getElem?.1 hr)
    rw [List.forall₂_map_left_iff]
    refine hreading.filters_eq.imp ?_
    rintro below filter ⟨spec, hspec, rfl⟩
    exact ⟨spec, (conditionAt?_cons_eq_some h).2 ⟨w, hw, hspec⟩, rfl⟩
  · rw [holds_group h hjoined hwell]
    constructor
    · intro hall place hplace
      obtain ⟨i, r, below, hr, hbelow, rfl⟩ := mem_placesBelow.1 hplace
      obtain ⟨w, hw, hreading⟩ := hof i r hr
      exact (hreading.holds_iff _).1 (hall i w hw) below hbelow
    · intro hall i w hw
      obtain ⟨r, hr, hreading⟩ := exists_getElem?_of_forall₂ hreadings hw
      exact (hreading.holds_iff _).2 fun below hbelow =>
        hall _ (mem_placesBelow.2 ⟨i, r, below, hr, hbelow, rfl⟩)

end Below

/-- A tree without alternatives and strays is read into filters that mean it; no other tree is
read. -/
theorem columnFilters_cases (field : String) (v : Value)
    (hwell : Everywhere Condition.WellFormed v) :
    (Everywhere Condition.Joined v ∧
      ∃ places filters, columnFilters field v = .ok filters ∧ Reading field v places filters) ∨
    (¬ Everywhere Condition.Joined v ∧
      ∃ cause, columnFilters field v = .error (.malformed cause)) := by
  induction v using tree_induction with
  | stray v hv =>
    refine .inr ⟨fun hall => ?_, _, columnFilters_stray field hv⟩
    have := hall [] _ rfl
    rw [hv] at this
    exact this
  | leaf v spec hv =>
    refine .inl ⟨?_, _, _, columnFilters_leaf field hv (hwell [] _ rfl), .of_leaf hv⟩
    rw [everywhere_of_no_group (by simp [hv]), hv]
    trivial
  | group v byAnd members hv ih =>
    rw [everywhere_group hv] at hwell ⊢
    rw [columnFilters_group field hv]
    by_cases hjoined : byAnd = true ∨ members.length < 2
    · rw [if_pos hjoined]
      cases hresult : members.mapM (columnFilters field) with
      | error e =>
        obtain ⟨w, hw, hfails⟩ := exists_of_mapM_eq_error hresult
        rcases ih w hw (hwell.2 w hw) with ⟨-, places, filters, hok, -⟩ | ⟨hnot, cause, herror⟩
        · rw [hfails] at hok
          cases hok
        · rw [hfails] at herror
          cases herror
          exact .inr ⟨fun hall => hnot (hall.2 w hw), cause, rfl⟩
      | ok lists =>
        have hmembers : List.Forall₂ (fun w filters => Everywhere Condition.Joined w ∧
            ∃ places, Reading field w places filters) members lists := by
          have hcases := (List.forall₂_and_left members lists).2
            ⟨fun w hw => ih w hw (hwell.2 w hw), mapM_eq_ok.1 hresult⟩
          refine hcases.imp ?_
          rintro w filters ⟨⟨hall, places, filters', hok', hreading⟩ | ⟨-, cause, herror⟩, hok⟩
          · rw [hok] at hok'
            cases hok'
            exact ⟨hall, places, hreading⟩
          · rw [hok] at herror
            cases herror
        obtain ⟨readings, hreadings, rfl⟩ := exists_pairs (hmembers.imp fun _ _ h => h.2)
        refine .inl ⟨⟨hjoined, fun w hw => ?_⟩, _, _, rfl, .of_group hv hjoined hwell.1 hreadings⟩
        obtain ⟨filters, -, hall, -⟩ := exists_of_mem_left hmembers hw
        exact hall
    · rw [if_neg hjoined]
      exact .inr ⟨fun hall => hjoined hall.1, _, rfl⟩

end Readings

/-- If a tree is read, its filters mean it: they are its leaves, and together they say what the tree
says. It is read unless there are alternatives or strays in it, and is refused as malformed then. -/
theorem columnFilters_means (field : String) {v : Value}
    (hwell : Everywhere Condition.WellFormed v) :
    (∀ filters, columnFilters field v = .ok filters →
      ∃ places, Reading field v places filters) ∧
    (∀ place members, conditionAt? v place = some (.group false members) → 2 ≤ members.length →
      ∃ cause, columnFilters field v = .error (.malformed cause)) ∧
    ((∃ filters, columnFilters field v = .ok filters) ↔ Everywhere Condition.Joined v) := by
  rcases columnFilters_cases field v hwell with ⟨hall, places, filters, hok, hreading⟩ |
    ⟨hnot, cause, herror⟩
  · refine ⟨fun filters' hok' => ?_, fun place members hgroup hlength => ?_,
      iff_of_true ⟨_, hok⟩ hall⟩
    · rw [hok] at hok'
      cases hok'
      exact ⟨places, hreading⟩
    · rcases hall place _ hgroup with hand | hshort
      · cases hand
      · omega
  · refine ⟨fun filters hok => ?_, fun _ _ _ _ => ⟨cause, herror⟩, iff_of_false ?_ hnot⟩
    · rw [herror] at hok
      cases hok
    · rintro ⟨filters, hok⟩
      rw [herror] at hok
      cases hok

def containsAlien : Entries := [("type", .text "contains"), ("filter", .text "Alien")]

def oneOfTwo : Entries :=
  [("filterType", .text "set"), ("values", .list [.text "Alien", .text "Aliens"])]

/-- A set stands alone in a group of alternatives. -/
def joinedTitles : Value :=
  .mapping [("operator", .text "and"), ("conditions", .list [.mapping containsAlien,
    .mapping [("operator", .text "OR"), ("conditions", .list [.mapping oneOfTwo])]])]

/-- A condition and a set are alternatives. -/
def alternativeTitles : Value :=
  .mapping [("conditions", .list [.mapping [("operator", .text "or"),
    ("conditions", .list [.mapping containsAlien, .mapping oneOfTwo])]])]

theorem joinedTitles_means :
    (∃ places, Reading "title" joinedTitles places
      [⟨"title", "contains", .text "Alien"⟩,
        ⟨"title", "in", .list [.text "Alien", .text "Aliens"]⟩]) ∧
    ∃ cause, columnFilters "title" alternativeTitles = .error (.malformed cause) := by
  have hcontains : Everywhere Condition.WellFormed (.mapping containsAlien) :=
    (everywhere_of_no_group (by rintro _ _ ⟨⟩)).2 (by rintro ⟨⟩)
  have hset : Everywhere Condition.WellFormed (.mapping oneOfTwo) :=
    (everywhere_of_no_group (by rintro _ _ ⟨⟩)).2 fun _ => ⟨_, rfl⟩
  have hjoined : Everywhere Condition.WellFormed joinedTitles := by
    refine (everywhere_group rfl).2 ⟨List.cons_ne_nil _ _, ?_⟩
    rw [List.forall_mem_cons, List.forall_mem_singleton]
    refine ⟨hcontains, (everywhere_group rfl).2 ⟨List.cons_ne_nil _ _, ?_⟩⟩
    rwa [List.forall_mem_singleton]
  have halternatives : Everywhere Condition.WellFormed alternativeTitles := by
    refine (everywhere_group rfl).2 ⟨List.cons_ne_nil _ _, ?_⟩
    rw [List.forall_mem_singleton]
    refine (everywhere_group rfl).2 ⟨List.cons_ne_nil _ _, ?_⟩
    rw [List.forall_mem_cons, List.forall_mem_singleton]
    exact ⟨hcontains, hset⟩
  refine ⟨(columnFilters_means "title" hjoined).1 _ (by with_unfolding_all rfl), ?_⟩
  exact (columnFilters_means "title" halternatives).2.1 [0] _ (by with_unfolding_all rfl)
    (by decide)

end RowWindow
end RecordQuery
