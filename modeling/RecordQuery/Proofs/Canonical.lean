import Mathlib.Data.List.Permutation
import RecordQuery.Proofs.Findings
import RecordQuery.Proofs.ValueOrder

/-!
# Canonical operands

An operator that takes several operands keeps them in one form, however they were given: a range has
its ends in order, and a list has each of its values once, as it came first.

* `FirstOfEqual`: what is left of values without the later ones of those that are equal.
* `Metadata.rangeOperand_range`, `Metadata.rangeOperand_perm`: a range holds the two operands in
  order, and is the same if they are given the other way round.
* `Metadata.distinctCoerced_firstOfEqual`: a list holds the first of its equal values.
* `Metadata.Canonical`, `Metadata.checkFilter_canonical`: so checked filters are in canonical form,
  and one with too few or too many operands is reported.

NaNs are left aside: they have no order, and none is equal to itself.
-/

namespace RecordQuery

/-! ## Ranges -/

/-- A range with the two values as its ends, the lower one first. -/
def IsRange (values : List Value) (range : Value) : Prop :=
  ∃ low high, range = .tuple [low, high] ∧ [low, high].Perm values ∧
    (low.compare? high = some .lt ∨ low.compare? high = some .eq)

/-! ## Lists -/

/-- The values that are left if of equal ones only the first is kept. -/
structure FirstOfEqual (values distinct : List Value) : Prop where
  sublist : distinct.Sublist values
  unequal : distinct.Pairwise fun u v => u.eqv v = false ∧ v.eqv u = false
  covers : ∀ v ∈ values, ∃ u ∈ distinct, v.eqv u = true
  first : ∀ u ∈ distinct, values.find? (fun v => v.eqv u) = some u

/-- A list, with at least one item, of the values without the later ones of those that are equal. -/
def IsList (values : List Value) (list : Value) : Prop :=
  ∃ distinct, list = .tuple distinct ∧ distinct ≠ [] ∧ FirstOfEqual values distinct

theorem firstOfEqual_nil : FirstOfEqual [] [] :=
  ⟨.slnil, .nil, by simp, by simp⟩

/-- A value that equals one that is kept adds nothing. -/
theorem FirstOfEqual.append_known {values distinct : List Value} (h : FirstOfEqual values distinct)
    {v : Value} (hv : ∃ u ∈ distinct, v.eqv u = true) : FirstOfEqual (values ++ [v]) distinct where
  sublist := h.sublist.trans (List.sublist_append_left _ _)
  unequal := h.unequal
  covers := by
    intro w hw
    rcases List.mem_append.1 hw with hw | hw
    · exact h.covers w hw
    · rw [List.mem_singleton.1 hw]
      exact hv
  first := by
    intro u hu
    rw [List.find?_append, h.first u hu]
    rfl

/-- A value that equals none that is kept is the first of its kind. -/
theorem FirstOfEqual.append_new {values distinct : List Value} (h : FirstOfEqual values distinct)
    {v : Value} {scale : Scale} (hon : ∀ u ∈ v :: values, u.On scale)
    (hv : ∀ u ∈ distinct, v.eqv u = false) :
    FirstOfEqual (values ++ [v]) (distinct ++ [v]) := by
  obtain ⟨hvon, hvalues⟩ := List.forall_mem_cons.1 hon
  have hdistinct : ∀ u ∈ distinct, u.On scale := fun u hu => hvalues u (h.sublist.subset hu)
  -- nothing before equals the value, since it would equal one that is kept
  have hnone : ∀ w ∈ values, w.eqv v = false := by
    intro w hw
    obtain ⟨u, hu, hwu⟩ := h.covers w hw
    by_contra hne
    have hvw : v.eqv w = true := by
      rw [Value.eqv_comm hvon (hvalues w hw)]
      simpa using hne
    have hvu := Value.eqv_trans hvon (hvalues w hw) (hdistinct u hu) hvw hwu
    rw [hv u hu] at hvu
    cases hvu
  refine ⟨h.sublist.append (List.Sublist.refl _), ?_, ?_, ?_⟩
  · refine List.pairwise_append.2 ⟨h.unequal, List.pairwise_singleton _ _, ?_⟩
    intro u hu w hw
    rw [List.mem_singleton.1 hw]
    exact ⟨Value.eqv_comm (hdistinct u hu) hvon ▸ hv u hu, hv u hu⟩
  · intro w hw
    rcases List.mem_append.1 hw with hw | hw
    · obtain ⟨u, hu, hwu⟩ := h.covers w hw
      exact ⟨u, List.mem_append_left _ hu, hwu⟩
    · rw [List.mem_singleton.1 hw]
      exact ⟨v, by simp, Value.eqv_refl hvon⟩
  · intro u hu
    rw [List.find?_append]
    rcases List.mem_append.1 hu with hu | hu
    · rw [h.first u hu]
      rfl
    · rw [List.mem_singleton.1 hu, List.find?_eq_none.2 fun w hw => by simp [hnone w hw]]
      simp [Value.eqv_refl hvon]

namespace Metadata

variable {md : Metadata} {field : String}

/-! ## Coerced operands -/

/-- No operand is coerced to a NaN. -/
def NanFree (md : Metadata) (field : String) (raws : List Value) : Prop :=
  ∀ raw ∈ raws, ∀ v, md.coerced field raw = .ok v → v.isNan = false

theorem nanFree_of_coerced {raws values : List Value}
    (h : raws.mapM (md.coerced field) = .ok values)
    (hvalues : values.all (fun v => !v.isNan) = true) : md.NanFree field raws := by
  intro raw hraw v hv
  obtain ⟨u, hu, hcoerced⟩ := exists_of_mem_left (mapM_eq_ok.1 h) hraw
  rw [hv] at hcoerced
  cases hcoerced
  simpa using List.all_eq_true.1 hvalues v hu

theorem coerced_on {raw v : Value} (h : md.coerced field raw = .ok v) (hnan : v.isNan = false) :
    v.On (md.kind field).scale := by
  unfold coerced at h
  split at h
  · rename_i hcoerce
    cases h
    exact coerce_on hcoerce hnan
  · exact absurd h refuse_ne_ok
  · cases h

theorem isDecimalNan_of_on {scale : Scale} {v : Value} (h : v.On scale) :
    isDecimalNan v = false := by
  cases h with
  | number hv hnan =>
    cases v with
    | decimal d =>
      cases d with
      | nan =>
        cases hv
        cases hnan
      | _ => rfl
    | _ => rfl
  | _ => rfl

/-! ## Ranges -/

section Ranges

variable {scale : Scale} {x y : Value}

theorem inOrder_eq (hx : x.On scale) (hy : y.On scale) :
    inOrder x y = .ok (if Value.compareRank y x = .lt then (y, x) else (x, y)) := by
  unfold inOrder
  rw [isDecimalNan_of_on hx, isDecimalNan_of_on hy, Value.compare?_eq_compareRank hy hx]
  simp

theorem inOrder_range (hx : x.On scale) (hy : y.On scale) {low high : Value}
    (h : inOrder x y = .ok (low, high)) : IsRange [x, y] (.tuple [low, high]) := by
  rw [inOrder_eq hx hy] at h
  refine ⟨low, high, rfl, ?_⟩
  cases hcompare : Value.compareRank y x with
  | lt =>
    rw [hcompare] at h
    cases h
    exact ⟨.swap _ _ _, .inl (by rw [Value.compare?_eq_compareRank hy hx, hcompare])⟩
  | eq =>
    rw [hcompare] at h
    cases h
    refine ⟨.refl _, .inr ?_⟩
    rw [Value.compare?_eq_compareRank hx hy, Value.compareRank_swap, hcompare]
    rfl
  | gt =>
    rw [hcompare] at h
    cases h
    refine ⟨.refl _, .inl ?_⟩
    rw [Value.compare?_eq_compareRank hx hy, Value.compareRank_swap, hcompare]
    rfl

/-- The other way round, the ends are the same unless they are level. -/
theorem inOrder_swap (hx : x.On scale) (hy : y.On scale) {low high : Value}
    (h : inOrder x y = .ok (low, high)) :
    ∃ low' high', inOrder y x = .ok (low', high') ∧ low'.eqv low = true ∧ high'.eqv high = true ∧
      (low.eqv high = false → low' = low ∧ high' = high) := by
  rw [inOrder_eq hx hy] at h
  rw [inOrder_eq hy hx, Value.compareRank_swap x y]
  cases hcompare : Value.compareRank y x with
  | lt =>
    rw [hcompare] at h
    cases h
    exact ⟨y, x, rfl, Value.eqv_refl hy, Value.eqv_refl hx, fun _ => ⟨rfl, rfl⟩⟩
  | eq =>
    rw [hcompare] at h
    cases h
    have hlevel : y.eqv x = true := by
      rw [Value.eqv_eq_compareRank hy hx, hcompare]
      rfl
    refine ⟨y, x, rfl, hlevel, Value.eqv_comm hx hy ▸ hlevel, fun hne => ?_⟩
    rw [Value.eqv_comm hx hy, hlevel] at hne
    cases hne
  | gt =>
    rw [hcompare] at h
    cases h
    exact ⟨x, y, rfl, Value.eqv_refl hx, Value.eqv_refl hy, fun _ => ⟨rfl, rfl⟩⟩

end Ranges

theorem rangeOperand_eq_ok {raw v : Value} :
    md.rangeOperand field raw = .ok v ↔ ∃ a b x y low high, operandsIn raw = [a, b] ∧
      md.coerced field a = .ok x ∧ md.coerced field b = .ok y ∧
      inOrder x y = .ok (low, high) ∧ v = .tuple [low, high] := by
  constructor
  · intro h
    unfold rangeOperand at h
    split at h
    · rename_i a b hoperands
      split at h
      · cases h
      · rename_i x y hboth
        obtain ⟨hx, hy⟩ := both_eq_ok hboth
        split at h
        · rename_i low high horder
          cases h
          exact ⟨a, b, x, y, low, high, hoperands, hx, hy, horder, rfl⟩
        · cases h
    · exact absurd h refuse_ne_ok
  · rintro ⟨a, b, x, y, low, high, hoperands, hx, hy, horder, rfl⟩
    simp [rangeOperand, hoperands, both, hx, hy, Except.map, horder]

/-- A range holds the two operands, as the kind of the field has them, in order. -/
theorem rangeOperand_range {raw v : Value} (hnan : md.NanFree field (operandsIn raw))
    (h : md.rangeOperand field raw = .ok v) :
    ∃ values, (operandsIn raw).mapM (md.coerced field) = .ok values ∧ IsRange values v := by
  obtain ⟨a, b, x, y, low, high, hoperands, hx, hy, horder, rfl⟩ := rangeOperand_eq_ok.1 h
  rw [hoperands] at hnan ⊢
  have hxon := coerced_on hx (hnan a (by simp) x hx)
  have hyon := coerced_on hy (hnan b (by simp) y hy)
  exact ⟨[x, y], mapM_eq_ok.2 (.cons hx (.cons hy .nil)), inOrder_range hxon hyon horder⟩

theorem eqv_pair (a b c d : Value) :
    (Value.tuple [a, b]).eqv (.tuple [c, d]) = (a.eqv c && b.eqv d) := by
  simp [Value.eqv, Value.eqvList]

/-- Two operands that the field takes make a range. -/
theorem rangeOperand_accepts {raw : Value} {values : List Value}
    (hnan : md.NanFree field (operandsIn raw)) (hcount : (operandsIn raw).length = 2)
    (h : (operandsIn raw).mapM (md.coerced field) = .ok values) :
    ∃ v, md.rangeOperand field raw = .ok v := by
  obtain ⟨a, b, hoperands⟩ := List.length_eq_two.1 hcount
  rw [hoperands] at hnan h
  cases mapM_eq_ok.1 h with
  | @cons _ x _ xs hx hrest =>
    cases hrest with
    | @cons _ y _ ys hy hrest =>
      have hxon := coerced_on hx (hnan a (by simp) x hx)
      have hyon := coerced_on hy (hnan b (by simp) y hy)
      exact ⟨_, rangeOperand_eq_ok.2
        ⟨a, b, x, y, _, _, hoperands, hx, hy, inOrder_eq hxon hyon, rfl⟩⟩

/-- The same two operands in another order give the same range. -/
theorem rangeOperand_perm {raw raw' v : Value} (hnan : md.NanFree field (operandsIn raw))
    (h : md.rangeOperand field raw = .ok v) (hperm : (operandsIn raw').Perm (operandsIn raw)) :
    ∃ v', md.rangeOperand field raw' = .ok v' ∧ v'.eqv v = true ∧
      ∀ low high, v = .tuple [low, high] → low.eqv high = false → v' = v := by
  obtain ⟨a, b, x, y, low, high, hoperands, hx, hy, horder, rfl⟩ := rangeOperand_eq_ok.1 h
  rw [hoperands] at hnan hperm
  have hxon := coerced_on hx (hnan a (by simp) x hx)
  have hyon := coerced_on hy (hnan b (by simp) y hy)
  rcases List.perm_pair.1 hperm with hsame | hswapped
  · refine ⟨_, rangeOperand_eq_ok.2 ⟨a, b, x, y, low, high, hsame, hx, hy, horder, rfl⟩, ?_,
      fun _ _ _ _ => rfl⟩
    rw [eqv_pair]
    rcases inOrder_eq_ok horder with ⟨rfl, rfl⟩ | ⟨rfl, rfl⟩
    · rw [Value.eqv_refl hxon, Value.eqv_refl hyon]
      rfl
    · rw [Value.eqv_refl hyon, Value.eqv_refl hxon]
      rfl
  · obtain ⟨low', high', horder', hlow, hhigh, hsame⟩ := inOrder_swap hxon hyon horder
    refine ⟨_, rangeOperand_eq_ok.2 ⟨b, a, y, x, low', high', hswapped, hy, hx, horder', rfl⟩, ?_,
      ?_⟩
    · rw [eqv_pair, hlow, hhigh]
      rfl
    · intro low₁ high₁ hpair hne
      cases hpair
      obtain ⟨rfl, rfl⟩ := hsame hne
      rfl

/-! ## Lists -/

theorem addDistinct_eq_ok {values next : List Value} {v : Value}
    (h : addDistinct values v = .ok next) :
    next = if values.any v.eqv then values else values ++ [v] := by
  unfold addDistinct at h
  split at h
  · cases h
  · exact (Except.ok.inj h).symm

/-- A value is kept unless it equals one that is. -/
theorem addDistinct_firstOfEqual {scale : Scale} {values distinct next : List Value} {v : Value}
    (hon : ∀ u ∈ v :: values, u.On scale) (hdistinct : FirstOfEqual values distinct)
    (h : addDistinct distinct v = .ok next) : FirstOfEqual (values ++ [v]) next := by
  rw [addDistinct_eq_ok h]
  split
  · rename_i hany
    exact hdistinct.append_known (by simpa using hany)
  · rename_i hany
    exact hdistinct.append_new hon (by simpa using hany)

/-- Operands are coerced one by one, and what is kept of them are the first of equal values. -/
theorem distinctCoerced_firstOfEqual {raws values distinct result : List Value}
    (hnan : md.NanFree field raws) (hvalues : ∀ u ∈ values, u.On (md.kind field).scale)
    (hdistinct : FirstOfEqual values distinct)
    (h : md.distinctCoerced field distinct raws = .ok result) :
    ∃ more, raws.mapM (md.coerced field) = .ok more ∧ FirstOfEqual (values ++ more) result := by
  induction raws generalizing values distinct with
  | nil =>
    cases h
    exact ⟨[], rfl, by simpa using hdistinct⟩
  | cons raw raws ih =>
    obtain ⟨v, hv, h⟩ := bind_eq_ok.1 h
    obtain ⟨next, hnext, h⟩ := bind_eq_ok.1 h
    obtain ⟨hnanHead, hnanTail⟩ := List.forall_mem_cons.1 hnan
    have hvon := coerced_on hv (hnanHead v hv)
    have hon : ∀ u ∈ values ++ [v], u.On (md.kind field).scale :=
      List.forall_mem_append.2 ⟨hvalues, by simpa using hvon⟩
    have hfirst := addDistinct_firstOfEqual (List.forall_mem_cons.2 ⟨hvon, hvalues⟩) hdistinct hnext
    obtain ⟨more, hmore, hresult⟩ := ih hnanTail hon hfirst h
    refine ⟨v :: more, mapM_eq_ok.2 (.cons hv (mapM_eq_ok.1 hmore)), ?_⟩
    rwa [List.append_assoc] at hresult

theorem distinctCoerced_accepts {raws values distinct : List Value}
    (hnan : md.NanFree field raws) (hdistinct : ∀ u ∈ distinct, isDecimalNan u = false)
    (h : raws.mapM (md.coerced field) = .ok values) :
    ∃ result, md.distinctCoerced field distinct raws = .ok result := by
  induction raws generalizing values distinct with
  | nil => exact ⟨distinct, rfl⟩
  | cons raw raws ih =>
    obtain ⟨hnanHead, hnanTail⟩ := List.forall_mem_cons.1 hnan
    cases mapM_eq_ok.1 h with
    | @cons _ v _ more hv hmore =>
      have hvnan := isDecimalNan_of_on (coerced_on hv (hnanHead v hv))
      obtain ⟨next, hnext, hnextnan⟩ :=
        addDistinct_ok (List.forall_mem_cons.2 ⟨hvnan, hdistinct⟩)
      obtain ⟨result, hresult⟩ := ih hnanTail hnextnan (mapM_eq_ok.2 hmore)
      refine ⟨result, ?_⟩
      rw [distinctCoerced, hv]
      simp only [bind, Except.bind, hnext]
      exact hresult

/-- Some operands that the field takes make a list. -/
theorem listOperand_accepts {op : Operator} {raw : Value} {values : List Value}
    (hnan : md.NanFree field (operandsIn raw)) (hsome : operandsIn raw ≠ [])
    (h : (operandsIn raw).mapM (md.coerced field) = .ok values) :
    ∃ v, md.listOperand field op raw = .ok v := by
  have hnone : ∀ u ∈ ([] : List Value), isDecimalNan u = false := nofun
  obtain ⟨result, hresult⟩ := distinctCoerced_accepts hnan hnone h
  unfold listOperand
  split
  · rename_i hnone
    exact absurd hnone hsome
  · rw [hresult]
    exact ⟨_, rfl⟩

theorem listOperand_list {op : Operator} {raw v : Value}
    (hnan : md.NanFree field (operandsIn raw)) (h : md.listOperand field op raw = .ok v) :
    ∃ values, (operandsIn raw).mapM (md.coerced field) = .ok values ∧ IsList values v := by
  unfold listOperand at h
  split at h
  · exact absurd h refuse_ne_ok
  · rename_i hsome
    obtain ⟨distinct, hdistinct, rfl⟩ := map_eq_ok.1 h
    obtain ⟨values, hvalues, hfirst⟩ :=
      distinctCoerced_firstOfEqual hnan (by simp) firstOfEqual_nil hdistinct
    rw [List.nil_append] at hfirst
    refine ⟨values, hvalues, distinct, rfl, ?_, hfirst⟩
    rintro rfl
    -- each of the operands would equal one that is kept
    have hnone : values = [] := List.eq_nil_iff_forall_not_mem.2 fun v hv => by
      simpa using hfirst.covers v hv
    rw [hnone, mapM_eq_ok, List.forall₂_nil_right_iff] at hvalues
    exact hsome hvalues

/-! ## Filters -/

theorem checkFilter_withValue {f : DraftFilter} {c : FilterCriterion} (h : md.checkFilter f = .ok c)
    (raw : Value) :
    md.checkFilter { f with value := raw } =
      (md.operand f.field c.operator raw).map fun value => { c with value } := by
  unfold checkFilter at h ⊢
  split at h
  · exact absurd h refuse_ne_ok
  rename_i hfield
  split at h
  · exact absurd h refuse_ne_ok
  rename_i op hop
  split at h
  · exact absurd h refuse_ne_ok
  rename_i hsupports
  obtain ⟨value, -, rfl⟩ := map_eq_ok.1 h
  simp [hfield, hop, hsupports]

/-- The operand of a criterion is what the operator makes of that of the filter. -/
theorem operand_of_checkFilter {f : DraftFilter} {c : FilterCriterion}
    (h : md.checkFilter f = .ok c) : md.operand f.field c.operator f.value = .ok c.value := by
  have hsame := checkFilter_withValue h f.value
  rw [h] at hsame
  obtain ⟨value, hvalue, heq⟩ := map_eq_ok.1 hsame.symm
  rw [← heq]
  exact hvalue

theorem operand_between (field : String) (raw : Value) :
    md.operand field .between raw = md.rangeOperand field raw := rfl

theorem operand_listed {op : Operator} (hop : op.isListed = true) (field : String) (raw : Value) :
    md.operand field op raw = md.listOperand field op raw := by
  cases op with
  | isIn | notIn => rfl
  | _ => cases hop

theorem rangeOperand_refused {raw : Value} (h : (operandsIn raw).length ≠ 2) :
    ∃ vs, md.rangeOperand field raw = .error (.violations vs) := by
  unfold rangeOperand
  split
  · rename_i hoperands
    rw [hoperands] at h
    exact absurd rfl h
  · exact ⟨_, rfl⟩

theorem listOperand_refused {op : Operator} {raw : Value} (h : operandsIn raw = []) :
    ∃ vs, md.listOperand field op raw = .error (.violations vs) := by
  unfold listOperand
  rw [h]
  exact ⟨_, rfl⟩

/-- What the operator refuses is reported, as is an operator that the field does not have. -/
theorem checkFilter_refused {f : DraftFilter} {op : Operator}
    (hfield : md.isFilterable f.field = true) (hop : f.operator = op.name)
    (h : ∃ vs, md.operand f.field op f.value = .error (.violations vs)) :
    ∃ vs, md.checkFilter f = .error (.violations vs) ∧ Reports f.field vs := by
  have hname : Operator.ofName? f.operator = some op := hop ▸ Operator.ofName?_name op
  have hrefused : ∃ vs, md.checkFilter f = .error (.violations vs) := by
    by_cases hsupports : md.supports f.field op = true
    · obtain ⟨vs, hvs⟩ := h
      rw [checkFilter_eq hfield hname hsupports, hvs]
      exact ⟨vs, rfl⟩
    · simp [checkFilter, hfield, hname, hsupports, refuse]
  obtain ⟨vs, hvs⟩ := hrefused
  exact ⟨vs, hvs, checkFilter_reports hfield hvs⟩

/-- Several operands are brought to one form by the check of a filter, or reported. -/
structure Canonical (md : Metadata) (f : DraftFilter) : Prop where
  /-- A range holds the two operands, the lower one first. -/
  range : md.NanFree f.field (operandsIn f.value) → ∀ c, md.checkFilter f = .ok c →
    c.operator = .between →
    ∃ values, (operandsIn f.value).mapM (md.coerced f.field) = .ok values ∧ IsRange values c.value
  /-- A range does not depend on the order of its operands. -/
  range_perm : md.NanFree f.field (operandsIn f.value) → ∀ c, md.checkFilter f = .ok c →
    c.operator = .between → ∀ raw, (operandsIn raw).Perm (operandsIn f.value) →
    ∃ value, md.checkFilter { f with value := raw } = .ok { c with value } ∧
      value.eqv c.value = true ∧
      ∀ low high, c.value = .tuple [low, high] → low.eqv high = false → value = c.value
  /-- A list holds each of its operands once. -/
  list : md.NanFree f.field (operandsIn f.value) → ∀ c, md.checkFilter f = .ok c →
    c.operator.isListed = true →
    ∃ values, (operandsIn f.value).mapM (md.coerced f.field) = .ok values ∧ IsList values c.value
  /-- Two operands that the field takes make a range, and some make a list. -/
  accepts : md.NanFree f.field (operandsIn f.value) → ∀ op : Operator, f.operator = op.name →
    md.supports f.field op = true →
    op = .between ∧ (operandsIn f.value).length = 2 ∨
      op.isListed = true ∧ operandsIn f.value ≠ [] →
    ∀ values, (operandsIn f.value).mapM (md.coerced f.field) = .ok values →
    ∃ c, md.checkFilter f = .ok c ∧ c.operator = op
  /-- A range of other than two operands is reported. -/
  range_count : f.operator = Operator.between.name → (operandsIn f.value).length ≠ 2 →
    ∃ vs, md.checkFilter f = .error (.violations vs) ∧ Reports f.field vs
  /-- A list of no operands is reported. -/
  list_count : ∀ op : Operator, op.isListed = true → f.operator = op.name →
    operandsIn f.value = [] →
    ∃ vs, md.checkFilter f = .error (.violations vs) ∧ Reports f.field vs

/-- Ranges and lists have one form, whatever the kind of the field and however many operands are
given, in whatever order: a range has its two ends with the lower one first, and a list has every
operand once, as it came first. What has too few or too many operands for that is reported under its
field. -/
theorem checkFilter_canonical (md : Metadata) {f : DraftFilter}
    (hfield : md.isFilterable f.field = true) : md.Canonical f where
  range := by
    intro hnan c hc hop
    have hoperand := operand_of_checkFilter hc
    rw [hop, operand_between] at hoperand
    exact rangeOperand_range hnan hoperand
  range_perm := by
    intro hnan c hc hop raw hperm
    have hoperand := operand_of_checkFilter hc
    rw [hop, operand_between] at hoperand
    obtain ⟨value, hvalue, heqv, hsame⟩ := rangeOperand_perm hnan hoperand hperm
    refine ⟨value, ?_, heqv, hsame⟩
    rw [checkFilter_withValue hc, hop, operand_between, hvalue]
    rfl
  list := by
    intro hnan c hc hop
    have hoperand := operand_of_checkFilter hc
    rw [operand_listed hop] at hoperand
    exact listOperand_list hnan hoperand
  accepts := by
    intro hnan op hop hsupports hcount values hvalues
    have hname : Operator.ofName? f.operator = some op := hop ▸ Operator.ofName?_name op
    rw [checkFilter_eq hfield hname hsupports]
    rcases hcount with ⟨rfl, htwo⟩ | ⟨hlisted, hsome⟩
    · obtain ⟨v, hv⟩ := rangeOperand_accepts hnan htwo hvalues
      rw [operand_between, hv]
      exact ⟨_, rfl, rfl⟩
    · obtain ⟨v, hv⟩ := listOperand_accepts hnan hsome hvalues
      rw [operand_listed hlisted, hv]
      exact ⟨_, rfl, rfl⟩
  range_count := by
    intro hop hcount
    exact checkFilter_refused hfield hop (rangeOperand_refused hcount)
  list_count := by
    intro op hlisted hop hnone
    refine checkFilter_refused hfield hop ?_
    rw [operand_listed hlisted]
    exact listOperand_refused hnone

/-- Films rated between two numbers, the greater one first and with nothing between. -/
def ratedBetween : DraftFilter := ⟨"rating", "between", .list [.text "9", .null, .text "4.50"]⟩

/-- Films with one of two ratings, the first of which is written in two ways. -/
def ratedIn : DraftFilter := ⟨"rating", "in", .list [.text "7.5", .text "7.50", .text "9"]⟩

theorem ratedBetween_canonical :
    (∃ c values, lenientFilms.metadata.checkFilter ratedBetween = .ok c ∧
      values.length = 2 ∧ IsRange values c.value) ∧
    (∃ c values, lenientFilms.metadata.checkFilter ratedIn = .ok c ∧
      values.length = 3 ∧ IsList values c.value) ∧
    ∃ vs, lenientFilms.metadata.checkFilter { ratedIn with value := .text "" } =
      .error (.violations vs) ∧ Reports "rating" vs := by
  have hfield : lenientFilms.metadata.isFilterable "rating" = true := rfl
  refine ⟨?_, ?_, ?_⟩
  · have hnan : lenientFilms.metadata.NanFree "rating" (operandsIn ratedBetween.value) :=
      nanFree_of_coerced rfl rfl
    have hcanonical := checkFilter_canonical lenientFilms.metadata (f := ratedBetween) hfield
    obtain ⟨values, hvalues, hrange⟩ := hcanonical.range hnan _ rfl rfl
    cases hvalues
    exact ⟨_, _, rfl, rfl, hrange⟩
  · have hnan : lenientFilms.metadata.NanFree "rating" (operandsIn ratedIn.value) :=
      nanFree_of_coerced rfl rfl
    have hcanonical := checkFilter_canonical lenientFilms.metadata (f := ratedIn) hfield
    obtain ⟨values, hvalues, hlist⟩ := hcanonical.list hnan _ rfl rfl
    cases hvalues
    exact ⟨_, _, rfl, rfl, hlist⟩
  · have hcanonical := checkFilter_canonical lenientFilms.metadata
      (f := { ratedIn with value := .text "" }) hfield
    exact hcanonical.list_count .isIn rfl rfl rfl

end Metadata
end RecordQuery
