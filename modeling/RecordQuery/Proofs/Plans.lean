import RecordQuery.Listing
import RecordQuery.Proofs.Whitelist

/-!
# What a request comes to

* `Listing.plan_eq_ok`: the draft, the format and the specification behind a plan.
* `Listing.run_of_plan_error`, `Listing.run_congr`: a request without a plan fails with every store
  alike, and of two stores that serve its plan alike it has one answer.
* `Validator.check_eq_ok`: the parts of a specification and the checks that they passed.
* `checkFilter_readable`: an expression that is let through can be read, and is held against texts.
-/

namespace RecordQuery

/-! ## Filters -/

/-- If the operand is an expression, it can be read, and the field holds texts. -/
def FilterCriterion.Readable (md : Metadata) (c : FilterCriterion) : Prop :=
  c.operator = .regex → md.kind c.field = .text ∧
    ∃ s node, c.value = .text s ∧ Pattern.read? md.model.characterNames s.toList = .ok node

theorem expressionOperand_eq_ok {md : Metadata} {field : String} {raw v : Value}
    (h : md.expressionOperand field raw = .ok v) :
    ∃ s node, v = .text s ∧ Pattern.read? md.model.characterNames s.toList = .ok node := by
  unfold Metadata.expressionOperand at h
  split at h
  · rename_i node hnode
    simp only [Except.ok.injEq] at h
    refine ⟨raw.toText, node, h.symm, ?_⟩
    rw [Value.toText, String.toList_ofList]
    exact hnode
  · exact absurd h refuse_ne_ok
  · cases h
  · cases h
  · cases h

theorem operand_regex {md : Metadata} {field : String} {raw v : Value}
    (h : md.operand field .regex raw = .ok v) :
    ∃ s node, v = .text s ∧ Pattern.read? md.model.characterNames s.toList = .ok node := by
  have hsingle : md.singleOperand field .regex raw = .ok v := h
  unfold Metadata.singleOperand at hsingle
  split at hsingle
  · exact absurd hsingle refuse_ne_ok
  split at hsingle
  · exact absurd hsingle refuse_ne_ok
  · exact expressionOperand_eq_ok hsingle

theorem kind_of_offers_regex {md : Metadata} {field : String} (h : md.Offers field .regex) :
    md.kind field = .text := by
  rcases h with h | ⟨h, -⟩
  · revert h
    cases md.kind field <;> decide
  · cases h

theorem checkFilter_readable {md : Metadata} {draft : DraftFilter} {c : FilterCriterion}
    (h : md.checkFilter draft = .ok c) : c.Readable md := by
  intro hop
  have hoffers := (checkFilter_whitelisted h).offered
  rw [hop] at hoffers
  refine ⟨kind_of_offers_regex hoffers, ?_⟩
  unfold Metadata.checkFilter at h
  split at h
  · exact absurd h refuse_ne_ok
  split at h
  · exact absurd h refuse_ne_ok
  split at h
  · exact absurd h refuse_ne_ok
  obtain ⟨value, hvalue, rfl⟩ := map_eq_ok.1 h
  obtain rfl : _ = Operator.regex := hop
  exact operand_regex hvalue

/-! ## Specifications -/

namespace Validator

variable {v : Validator}

theorem check_eq_ok {draft : DraftQuery} {c : Checked Specification} (h : v.check draft = .ok c) :
    ∃ filters sorts pagination, gather (draft.filters.map v.metadata.checkFilter) = .ok filters ∧
      gather (draft.sort.map v.checkSort) = .ok sorts ∧
      v.checkPagination (firstOfEach sorts.accepted) draft.pagination = .ok pagination ∧
      c.violations = filters.violations ++ sorts.violations ++
        (v.checkSearch draft.search).violations ++
        (checkIncludeDeleted draft.includeDeleted).violations ++ pagination.violations ∧
      c.accepted = {
        filters := filters.accepted
        sort := firstOfEach sorts.accepted
        pagination := pagination.accepted
        search := (v.checkSearch draft.search).accepted
        includeDeleted := (checkIncludeDeleted draft.includeDeleted).accepted } := by
  unfold check at h
  obtain ⟨filters, hfilters, h⟩ := bind_eq_ok.1 h
  obtain ⟨sorts, hsorts, h⟩ := bind_eq_ok.1 h
  obtain ⟨pagination, hpagination, h⟩ := bind_eq_ok.1 h
  rw [pure_eq_ok] at h
  subst h
  exact ⟨filters, sorts, pagination, hfilters, hsorts, hpagination, rfl, rfl⟩

theorem check_readable {draft : DraftQuery} {c : Checked Specification}
    (h : v.check draft = .ok c) : ∀ f ∈ c.accepted.filters, f.Readable v.metadata := by
  obtain ⟨filters, _, _, hfilters, -, -, -, hc⟩ := check_eq_ok h
  rw [hc]
  intro f hf
  obtain ⟨d, -, hd⟩ := List.mem_map.1 (ok_mem_of_gather hfilters hf)
  exact checkFilter_readable hd

/-- A draft has a specification only if all its violations are dropped. -/
theorem validate_eq_ok {draft : DraftQuery} {outcome : Outcome} {spec : Specification}
    (h : v.validate draft = .ok outcome) (hs : outcome.spec = some spec) :
    ∃ c, v.check draft = .ok c ∧ c.accepted = spec ∧
      ∀ violation ∈ c.violations, v.drops violation = true := by
  obtain ⟨c, hc, h⟩ := bind_eq_ok.1 h
  rw [pure_eq_ok] at h
  subst h
  simp only at hs
  split at hs
  · rename_i hempty
    refine ⟨c, hc, Option.some.inj hs, ?_⟩
    simpa using hempty
  · cases hs

end Validator

namespace Listing

variable {l : Listing}

/-- Both parts of a listing are made for the model. -/
structure IsFor (l : Listing) (md : Metadata) : Prop where
  validator : l.validator.metadata = md
  executor : l.executor.metadata = md

theorem specify_eq_ok {draft : DraftQuery} {spec : Specification} :
    l.specify draft = .ok spec ↔
      ∃ c, l.validator.check draft = .ok c ∧ c.accepted = spec ∧
        ∀ violation ∈ c.violations, l.validator.drops violation = true := by
  unfold specify Validator.validate
  cases hc : l.validator.check draft with
  | error f => simp [bind, Except.bind]
  | ok c =>
    simp only [bind, Except.bind, pure, Except.pure, Except.ok.injEq, exists_eq_left']
    by_cases hall : ∀ violation ∈ c.violations, l.validator.drops violation = true
    · have hnil : c.violations.filter (fun violation => !l.validator.drops violation) = [] := by
        simpa using hall
      simpa [hnil] using fun _ => hall
    · have hne : c.violations.filter (fun violation => !l.validator.drops violation) ≠ [] := by
        simpa using hall
      have hempty : (c.violations.filter fun violation =>
          !l.validator.drops violation).isEmpty = false := by
        simpa using hne
      simp [hempty, hall]

theorem plan_eq_ok {req : ListingRequest} {format : Format} {execution : ExecutionRequest} :
    l.plan req = .ok (format, execution) ↔
      ∃ draft spec, DraftQuery.read req.params = .ok draft ∧ l.formatOf draft = .ok format ∧
        l.specify (shaped format draft) = .ok spec ∧
        execution = {
          spec := if req.deletedOnly then { spec with includeDeleted := true } else spec
          needsTotal := format.needsTotal || (shaped format draft).includeTotal
          scope := req.scope
          resourcePath := req.resourcePath } := by
  unfold plan executionOf
  constructor
  · intro h
    obtain ⟨draft, hdraft, h⟩ := bind_eq_ok.1 h
    obtain ⟨format', hformat, h⟩ := bind_eq_ok.1 h
    obtain ⟨execution', hexecution, h⟩ := bind_eq_ok.1 h
    rw [pure_eq_ok] at h
    cases h
    obtain ⟨spec, hspec, hexecution⟩ := bind_eq_ok.1 hexecution
    rw [pure_eq_ok] at hexecution
    exact ⟨draft, spec, mapError_eq_ok.1 hdraft, mapError_eq_ok.1 hformat, hspec,
      hexecution.symm⟩
  · rintro ⟨draft, spec, hdraft, hformat, hspec, rfl⟩
    refine bind_eq_ok.2 ⟨draft, mapError_eq_ok.2 hdraft, bind_eq_ok.2 ⟨format,
      mapError_eq_ok.2 hformat, bind_eq_ok.2 ⟨_, bind_eq_ok.2 ⟨spec, hspec, rfl⟩, rfl⟩⟩⟩

/-- What is executed for a request is whitelisted. -/
theorem plan_whitelisted {req : ListingRequest} {format : Format} {execution : ExecutionRequest}
    (h : l.plan req = .ok (format, execution)) :
    execution.spec.Whitelisted l.validator.metadata := by
  obtain ⟨draft, spec, -, -, hspec, rfl⟩ := plan_eq_ok.1 h
  obtain ⟨c, hc, rfl, -⟩ := specify_eq_ok.1 hspec
  have hwhitelisted := check_whitelisted hc
  simp only
  split
  · exact ⟨hwhitelisted.filters, hwhitelisted.sort, hwhitelisted.sort_nodup, hwhitelisted.search⟩
  · exact hwhitelisted

/-- The expressions in the filters of a plan can be read. -/
theorem readable_of_plan {req : ListingRequest} {format : Format} {execution : ExecutionRequest}
    (h : l.plan req = .ok (format, execution)) :
    ∀ c ∈ execution.spec.filters, c.Readable l.validator.metadata := by
  obtain ⟨draft, spec, -, -, hspec, rfl⟩ := plan_eq_ok.1 h
  obtain ⟨c, hc, rfl, -⟩ := specify_eq_ok.1 hspec
  have hall := Validator.check_readable hc
  simp only
  split <;> exact hall

theorem scope_of_plan {req : ListingRequest} {format : Format} {execution : ExecutionRequest}
    (h : l.plan req = .ok (format, execution)) : execution.scope = req.scope := by
  obtain ⟨draft, spec, -, -, -, rfl⟩ := plan_eq_ok.1 h
  rfl

theorem run_of_plan_error {req : ListingRequest} {e : ListingError} (h : l.plan req = .error e)
    (store : RecordQuery.Store) (now : Calendar.DateTime) : l.run store req now = .error e :=
  bind_eq_error.2 (.inl h)

theorem run_congr {req : ListingRequest} {format : Format} {execution : ExecutionRequest}
    (h : l.plan req = .ok (format, execution)) {store store' : RecordQuery.Store}
    {now : Calendar.DateTime}
    (hsame : l.executor.execute store execution now = l.executor.execute store' execution now) :
    l.run store req now = l.run store' req now := by
  unfold run
  simp only [h, bind, Except.bind, hsame]

end Listing
end RecordQuery
