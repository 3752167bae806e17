import RecordQuery.Proofs.Inheritance
import RecordQuery.Proofs.Literals
import RecordQuery.Proofs.Plans
import RecordQuery.Proofs.Shortest

/-!
# Checked operands

What the kind of a field and an operator say of an operand that has passed its check.

* `Value.Doubles`: all floating numbers in a value are doubles.
* `Kind.Holds`: the values of a kind; `coerce_holds`: coercion gives nothing else.
* `Metadata.operand_takes`: what holds of all coerced values holds of those that an operator takes.
* `Metadata.Suits`: the operands that suit an operator on a field; `Metadata.operand_suits`: a check
  gives nothing else.
* `Listing.checks_of_plan`: so the filters of a plan have suitable operands.
-/

namespace RecordQuery

open RecordQuery.Number RecordQuery.Calendar

/-! ## Doubles -/

namespace Value

mutual

/-- All floating numbers in the value are doubles. -/
def Doubles : Value → Prop
  | .float x => x.IsDouble
  | .list items => DoublesList items
  | .tuple items => DoublesList items
  | .mapping entries => DoublesEntries entries
  | _ => True

def DoublesList : List Value → Prop
  | [] => True
  | v :: rest => Doubles v ∧ DoublesList rest

def DoublesEntries : Entries → Prop
  | [] => True
  | (_, v) :: rest => Doubles v ∧ DoublesEntries rest

end

theorem doublesList_iff {vs : List Value} : DoublesList vs ↔ ∀ v ∈ vs, Doubles v := by
  induction vs with
  | nil => simp [DoublesList]
  | cons v vs ih => simp [DoublesList, ih]

theorem doublesEntries_iff {es : Entries} : DoublesEntries es ↔ ∀ e ∈ es, Doubles e.2 := by
  induction es with
  | nil => simp [DoublesEntries]
  | cons e es ih => simp [DoublesEntries, ih]

theorem doubles_of_ofParts? {negative : Bool} {whole fraction : List Char} {exponent : Option Int}
    {v : Value} (h : Json.ofParts? negative whole fraction exponent = some v) : Doubles v := by
  unfold Json.ofParts? at h
  split at h
  · cases h
  split at h
  · split at h
    · cases h
    · obtain ⟨n, -, rfl⟩ := Option.map_eq_some_iff.1 h
      trivial
  · obtain ⟨n, -, rfl⟩ := Option.map_eq_some_iff.1 h
    exact Binary64.isDouble_ofScientific _

/-- The numbers in a JSON text are read as doubles. -/
theorem closed_doubles : Json.Closed Doubles where
  word := by
    intro w hw
    simp only [Json.words, List.mem_cons, List.not_mem_nil, or_false] at hw
    rcases hw with rfl | rfl | rfl | rfl | rfl | rfl
    all_goals trivial
  number := doubles_of_ofParts?
  text _ := trivial
  list := doublesList_iff.2
  mapping := doublesEntries_iff.2

theorem inherited_doubles : Inherited Doubles where
  null := trivial
  text _ := trivial
  list_iff := doublesList_iff
  tuple_iff := doublesList_iff
  mapping_iff := doublesEntries_iff
  json := closed_doubles.of_read?

theorem Inherited.of_mem_operandsIn {P : Value → Prop} (hP : Inherited P) {raw v : Value}
    (hraw : P raw) (hv : v ∈ Metadata.operandsIn raw) : P v := by
  have hmem := (List.mem_filter.1 hv).1
  cases raw with
  | list items => exact hP.list_iff.1 hraw v hmem
  | tuple items => exact hP.tuple_iff.1 hraw v hmem
  | _ => exact List.mem_singleton.1 hmem ▸ hraw

end Value

/-! ## Kinds -/

/-- The values of a kind. -/
inductive Kind.Holds : Kind → Value → Prop where
  | boolean (b : Bool) : Holds .boolean (.bool b)
  | integer (n : Int) : Holds .integer (.int n)
  | float {x : Binary64} (h : x.IsDouble) : Holds .float (.float x)
  | decimal (d : Decimal) : Holds .decimal (.decimal d)
  | date (d : Date) : Holds .date (.date d)
  | datetime (t : DateTime) : Holds .datetime (.datetime t)
  | uuid (u : Uuid) : Holds .uuid (.uuid u)
  | enum (s : String) : Holds .enum (.text s)
  | text (s : String) : Holds .text (.text s)
  | json (s : String) : Holds .json (.text s)

theorem Coercion.isDouble_float {raw : Value} (hraw : raw.Doubles) {x : Binary64}
    (h : float raw = .ok x) : x.IsDouble := by
  unfold float at h
  split at h
  · cases h
  · cases h
    exact hraw
  · split at h
    · rename_i hint
      cases h
      exact Binary64.isDouble_ofInt? hint
    · cases h
  · unfold found at h
    split at h
    · rename_i hread
      cases h
      exact Binary64.isDouble_read? hread
    · cases h

/-- Coercion to a kind gives values of the kind. -/
theorem coerce_holds {kind : Kind} {options : List String} {raw v : Value} (hraw : raw.Doubles)
    (h : coerce kind options raw = .ok v) : kind.Holds v := by
  cases kind with
  | float =>
    obtain ⟨x, hx, rfl⟩ := map_eq_ok.1 h
    exact .float (Coercion.isDouble_float hraw hx)
  | _ =>
    obtain ⟨a, -, rfl⟩ := map_eq_ok.1 h
    constructor

namespace Metadata

variable {md : Metadata} {field : String}

theorem coerced_holds {raw v : Value} (hraw : raw.Doubles) (h : md.coerced field raw = .ok v) :
    (md.kind field).Holds v := by
  unfold coerced at h
  split at h
  · rename_i hcoerce
    cases h
    exact coerce_holds hraw hcoerce
  · exact absurd h refuse_ne_ok
  · cases h

/-! ## Operators -/

/-- The operands of an operator on a field: none, one value of the kind of the field, several of
them, or a text. The operand of a custom filter is for the filter to judge. -/
def Suits (md : Metadata) (field : String) (op : Operator) (v : Value) : Prop :=
  match op with
  | .isNull | .isNotNull => v = .null
  | .isIn | .notIn | .between => ∃ vs, v = .tuple vs ∧ ∀ u ∈ vs, (md.kind field).Holds u
  | .contains | .startsWith | .endsWith | .regex => ∃ s, v = .text s
  | .equals | .notEquals | .gt | .gte | .lt | .lte => (md.kind field).Holds v
  | .custom => True

theorem both_eq_ok {a : Except Refusal Value} {b : Unit → Except Refusal Value} {x y : Value}
    (h : both a b = .ok (x, y)) : a = .ok x ∧ b () = .ok y := by
  unfold both at h
  split at h
  · cases h
  · obtain ⟨y', hy, heq⟩ := map_eq_ok.1 h
    cases heq
    exact ⟨rfl, hy⟩
  · split at h
    all_goals cases h

theorem inOrder_eq_ok {a b low high : Value} (h : inOrder a b = .ok (low, high)) :
    (low = a ∧ high = b) ∨ (low = b ∧ high = a) := by
  unfold inOrder at h
  split at h
  · cases h
  · split at h
    · cases h
      exact .inr ⟨rfl, rfl⟩
    · cases h
      exact .inl ⟨rfl, rfl⟩

/-! Whatever coercion gives has a property, and then the operands that are made of it have it. -/

section Coerced

variable {P : Value → Prop} {raw v : Value}

theorem rangeOperand_of_coerced
    (hcoerced : ∀ r ∈ operandsIn raw, ∀ u, md.coerced field r = .ok u → P u)
    (h : md.rangeOperand field raw = .ok v) : ∃ vs, v = .tuple vs ∧ ∀ u ∈ vs, P u := by
  unfold rangeOperand at h
  split at h
  · rename_i a b hoperands
    split at h
    · cases h
    · rename_i x y hboth
      obtain ⟨hx, hy⟩ := both_eq_ok hboth
      have hx' : P x := hcoerced a (by simp [hoperands]) x hx
      have hy' : P y := hcoerced b (by simp [hoperands]) y hy
      split at h
      · rename_i low high horder
        cases h
        refine ⟨_, rfl, ?_⟩
        rcases inOrder_eq_ok horder with ⟨rfl, rfl⟩ | ⟨rfl, rfl⟩
        · simp [hx', hy']
        · simp [hx', hy']
      · cases h
  · exact absurd h refuse_ne_ok

theorem distinctCoerced_of_coerced {raws values vs : List Value}
    (hcoerced : ∀ r ∈ raws, ∀ u, md.coerced field r = .ok u → P u) (hvalues : ∀ u ∈ values, P u)
    (h : md.distinctCoerced field values raws = .ok vs) : ∀ u ∈ vs, P u := by
  induction raws generalizing values with
  | nil =>
    rw [distinctCoerced] at h
    cases h
    exact hvalues
  | cons raw raws ih =>
    obtain ⟨v, hv, h⟩ := bind_eq_ok.1 h
    obtain ⟨next, hnext, h⟩ := bind_eq_ok.1 h
    have hheld := hcoerced raw List.mem_cons_self v hv
    refine ih (fun r hr => hcoerced r (List.mem_cons_of_mem raw hr)) ?_ h
    unfold addDistinct at hnext
    split at hnext
    · cases hnext
    · split at hnext
      · cases hnext
        exact hvalues
      · cases hnext
        exact List.forall_mem_append.2 ⟨hvalues, by simpa using hheld⟩

theorem listOperand_of_coerced {op : Operator}
    (hcoerced : ∀ r ∈ operandsIn raw, ∀ u, md.coerced field r = .ok u → P u)
    (h : md.listOperand field op raw = .ok v) : ∃ vs, v = .tuple vs ∧ ∀ u ∈ vs, P u := by
  unfold listOperand at h
  split at h
  · exact absurd h refuse_ne_ok
  · obtain ⟨vs, hvs, rfl⟩ := map_eq_ok.1 h
    exact ⟨vs, rfl, distinctCoerced_of_coerced hcoerced (by simp) hvs⟩

/-- A single operand is a text for a textual operator, and coerced for another. -/
theorem singleOperand_of_coerced {op : Operator}
    (hcoerced : ∀ u, md.coerced field raw = .ok u → P u)
    (h : md.singleOperand field op raw = .ok v) :
    (op.isTextual = true → ∃ s, v = .text s) ∧ (op.isTextual = false → P v) := by
  unfold singleOperand at h
  split at h
  · exact absurd h refuse_ne_ok
  split at h
  · exact absurd h refuse_ne_ok
  split at h
  · rename_i hregex
    obtain ⟨s, -, rfl, -⟩ := expressionOperand_eq_ok h
    refine ⟨fun _ => ⟨s, rfl⟩, fun htextual => ?_⟩
    rw [hregex] at htextual
    cases htextual
  split at h
  · rename_i htextual
    split at h
    · exact absurd h refuse_ne_ok
    · cases h
      refine ⟨fun _ => ⟨_, rfl⟩, fun hnot => ?_⟩
      rw [htextual] at hnot
      cases hnot
  · rename_i htextual
    exact ⟨fun hyes => absurd hyes htextual, fun _ => hcoerced v h⟩

/-- What an operator takes: nothing, one value with a property, several of them, or a text. A custom
filter takes any operand. -/
def Takes (P : Value → Prop) (op : Operator) (v : Value) : Prop :=
  match op with
  | .isNull | .isNotNull => v = .null
  | .isIn | .notIn | .between => ∃ vs, v = .tuple vs ∧ ∀ u ∈ vs, P u
  | .contains | .startsWith | .endsWith | .regex => ∃ s, v = .text s
  | .equals | .notEquals | .gt | .gte | .lt | .lte => P v
  | .custom => True

/-- A check gives an operator coerced values to take, and a custom filter the operand itself. -/
theorem operand_takes {op : Operator} {C : Value → Prop} (hC : Value.Inherited C) (hraw : C raw)
    (hcoerced : ∀ {r u : Value}, C r → md.coerced field r = .ok u → P u)
    (h : md.operand field op raw = .ok v) : Takes P op v ∧ (op = .custom → v = raw) := by
  have hmembers : ∀ r ∈ operandsIn raw, ∀ u, md.coerced field r = .ok u → P u :=
    fun _ hr _ hu => hcoerced (hC.of_mem_operandsIn hraw hr) hu
  have hsingle : ∀ u, md.coerced field raw = .ok u → P u := fun _ hu => hcoerced hraw hu
  cases op with
  | isNull | isNotNull => exact ⟨(Except.ok.inj h).symm, nofun⟩
  | custom =>
    refine ⟨trivial, fun _ => ?_⟩
    simp only [operand, Operator.isValueless, Bool.false_eq_true, if_false, if_true] at h
    split at h
    · exact absurd h refuse_ne_ok
    · exact (Except.ok.inj h).symm
  | between => exact ⟨rangeOperand_of_coerced hmembers h, nofun⟩
  | isIn | notIn => exact ⟨listOperand_of_coerced hmembers h, nofun⟩
  | contains | startsWith | endsWith | regex =>
    exact ⟨(singleOperand_of_coerced hsingle h).1 rfl, nofun⟩
  | equals | notEquals | gt | gte | lt | lte =>
    exact ⟨(singleOperand_of_coerced hsingle h).2 rfl, nofun⟩

end Coerced

/-- A check lets only suitable operands through. -/
theorem operand_suits {op : Operator} {raw v : Value} (hraw : raw.Doubles)
    (h : md.operand field op raw = .ok v) : md.Suits field op v := by
  obtain ⟨htakes, -⟩ := operand_takes Value.inherited_doubles hraw coerced_holds h
  cases op <;> exact htakes

/-! ## Filters -/

/-- A checked filter: its operand suits its operator, and its field decides on letter case. -/
structure Checks (md : Metadata) (c : FilterCriterion) : Prop where
  suits : md.Suits c.field c.operator c.value
  case_eq : c.caseSensitive = md.isCaseSensitive c.field

theorem checkFilter_checks {draft : DraftFilter} (hraw : draft.value.Doubles) {c : FilterCriterion}
    (h : md.checkFilter draft = .ok c) : md.Checks c := by
  unfold checkFilter at h
  split at h
  · exact absurd h refuse_ne_ok
  split at h
  · exact absurd h refuse_ne_ok
  split at h
  · exact absurd h refuse_ne_ok
  · obtain ⟨v, hv, rfl⟩ := map_eq_ok.1 h
    exact ⟨operand_suits hraw hv, rfl⟩

end Metadata

namespace Listing

variable {l : Listing}

theorem filters_shaped (format : Format) (draft : DraftQuery) :
    (shaped format draft).filters = draft.filters := by
  unfold shaped
  split <;> rfl

/-- The filters of a plan are those of a draft that have passed their check. -/
theorem filters_of_plan {req : ListingRequest} {format : Format} {execution : ExecutionRequest}
    (h : l.plan req = .ok (format, execution)) :
    ∃ draft, DraftQuery.read req.params = .ok draft ∧ ∀ c ∈ execution.spec.filters,
      ∃ f ∈ draft.filters, l.validator.metadata.checkFilter f = .ok c := by
  obtain ⟨draft, spec, hdraft, -, hspec, rfl⟩ := plan_eq_ok.1 h
  obtain ⟨checked, hchecked, rfl, -⟩ := specify_eq_ok.1 hspec
  obtain ⟨filters, _, _, hfilters, -, -, -, haccepted⟩ := Validator.check_eq_ok hchecked
  have hplanned : (if req.deletedOnly then { checked.accepted with includeDeleted := true }
      else checked.accepted).filters = filters.accepted := by
    rw [haccepted]
    split <;> rfl
  refine ⟨draft, hdraft, ?_⟩
  simp only
  rw [hplanned]
  intro c hc
  obtain ⟨f, hf, hcheck⟩ := List.mem_map.1 (ok_mem_of_gather hfilters hc)
  rw [filters_shaped] at hf
  exact ⟨f, hf, hcheck⟩

/-- The filters of a plan are checked, if all floating numbers in the parameters are doubles. -/
theorem checks_of_plan {req : ListingRequest} (hparams : ∀ e ∈ req.params, e.2.Doubles)
    {format : Format} {execution : ExecutionRequest}
    (h : l.plan req = .ok (format, execution)) :
    ∀ c ∈ execution.spec.filters, l.validator.metadata.Checks c := by
  obtain ⟨draft, hdraft, hfilters⟩ := filters_of_plan h
  intro c hc
  obtain ⟨f, hf, hcheck⟩ := hfilters c hc
  exact Metadata.checkFilter_checks (Value.inherited_doubles.read hparams hdraft f hf) hcheck

end Listing
end RecordQuery
