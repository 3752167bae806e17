import RecordQuery.Proofs.Results
import RecordQuery.Validation.Validator

/-!
# Criteria and slices

A draft asks for records by criteria and for a slice of them. Both are checked, the slice last.

* `Validator.checkCriteria` checks all of a draft but its slice.
* `Validator.validate_eq`: an outcome is that of the criteria, completed by the slice, whose
  violations come last and are never dropped.
-/

namespace RecordQuery

/-- What a specification asks for, whichever slice of it. -/
structure Criteria where
  filters : List FilterCriterion
  sort : List SortCriterion
  search : Option SearchSpec
  includeDeleted : Bool

def Criteria.spec (c : Criteria) (pagination : Pagination) : Specification :=
  { filters := c.filters
    sort := c.sort
    pagination
    search := c.search
    includeDeleted := c.includeDeleted }

namespace Validator

variable (v : Validator)

def checkCriteria (draft : DraftQuery) : Except Fault (Checked Criteria) := do
  let filters ← gather (draft.filters.map v.metadata.checkFilter)
  let sorts ← gather (draft.sort.map v.checkSort)
  let search := v.checkSearch draft.search
  let includeDeleted := checkIncludeDeleted draft.includeDeleted
  return {
    violations := filters.violations ++ sorts.violations ++ search.violations ++
      includeDeleted.violations
    accepted := {
      filters := filters.accepted
      sort := firstOfEach sorts.accepted
      search := search.accepted
      includeDeleted := includeDeleted.accepted } }

theorem check_eq (draft : DraftQuery) :
    v.check draft = do
      let c ← v.checkCriteria draft
      let p ← v.checkPagination c.accepted.sort draft.pagination
      return {
        violations := c.violations ++ p.violations
        accepted := c.accepted.spec p.accepted } := by
  unfold check checkCriteria
  cases gather (draft.filters.map v.metadata.checkFilter) with
  | error f => rfl
  | ok filters => cases gather (draft.sort.map v.checkSort) <;> rfl

/-! ## Violations of slices -/

/-- The objections are about numbers or cursors, not about the use of a field. -/
def Numeric {α : Type} (c : Checked α) : Prop :=
  ∀ violation ∈ c.violations, violation.reason.isWhitelist = false

variable {v}

theorem numeric_pageSize (raw : Value) : Numeric (v.checkPageSize raw) := by
  unfold checkPageSize
  split
  · simp [Numeric]
  · split <;> simp [Numeric, Violation.about, Reason.isWhitelist]

theorem numeric_nonNegative (field : String) (default : Int) (raw : Value) :
    Numeric (checkNonNegative field default raw) := by
  unfold checkNonNegative
  split
  · simp [Numeric]
  · split
    · simp [Numeric, Violation.about, Reason.isWhitelist]
    · split <;> simp [Numeric, Violation.about, Reason.isWhitelist]

theorem numeric_append {vs ws : List Violation}
    (hvs : ∀ violation ∈ vs, violation.reason.isWhitelist = false)
    (hws : ∀ violation ∈ ws, violation.reason.isWhitelist = false) :
    ∀ violation ∈ vs ++ ws, violation.reason.isWhitelist = false := by
  intro violation h
  rcases List.mem_append.1 h with h | h
  · exact hvs _ h
  · exact hws _ h

theorem numeric_offset {draft : DraftPagination} {p : Checked Pagination}
    (h : v.checkOffset draft = .ok p) : Numeric p := by
  obtain ⟨accepted, -, h⟩ := bind_eq_ok.1 h
  rw [pure_eq_ok] at h
  subst h
  exact numeric_append (numeric_pageSize _) (numeric_nonNegative _ _ _)

theorem numeric_window {draft : DraftPagination} {p : Checked Pagination}
    (h : v.checkWindow draft = .ok p) : Numeric p := by
  have hboth := fun default => numeric_append
    (numeric_nonNegative "startRow" 0 draft.startRow)
    (numeric_nonNegative "endRow" default draft.endRow)
  unfold checkWindow at h
  simp only at h
  split at h
  · split at h
    · cases h
      exact numeric_append (hboth _) (by simp [Violation.about, Reason.isWhitelist])
    · obtain ⟨accepted, -, h⟩ := bind_eq_ok.1 h
      rw [pure_eq_ok] at h
      subst h
      exact hboth _
  · cases h
    exact hboth _

theorem numeric_cursor {sort : List SortCriterion} {draft : DraftPagination}
    {p : Checked Pagination} (h : v.checkCursor sort draft = .ok p) : Numeric p := by
  unfold checkCursor at h
  simp only at h
  split at h
  · obtain ⟨accepted, -, h⟩ := bind_eq_ok.1 h
    rw [pure_eq_ok] at h
    subst h
    exact numeric_pageSize _
  · split at h
    · obtain ⟨accepted, -, h⟩ := bind_eq_ok.1 h
      rw [pure_eq_ok] at h
      subst h
      exact numeric_pageSize _
    · cases h
    · obtain ⟨accepted, -, h⟩ := bind_eq_ok.1 h
      rw [pure_eq_ok] at h
      subst h
      exact numeric_append (numeric_pageSize _) (by simp [Violation.about, Reason.isWhitelist])

theorem numeric_pagination {sort : List SortCriterion} {draft : DraftPagination}
    {p : Checked Pagination} (h : v.checkPagination sort draft = .ok p) : Numeric p := by
  unfold checkPagination at h
  split at h
  · exact numeric_window h
  · exact numeric_cursor h
  · exact numeric_offset h

/-! ## Outcomes -/

variable (v)

/-- The outcome for criteria and a slice. -/
def conclude (slice : DraftPagination) (c : Checked Criteria) : Except Fault Outcome := do
  let p ← v.checkPagination c.accepted.sort slice
  let violations := c.violations.filter (fun violation => !v.drops violation) ++ p.violations
  return {
    spec := if violations.isEmpty then some (c.accepted.spec p.accepted) else none
    violations
    dropped := c.violations.filter v.drops }

theorem filter_numeric {α : Type} {c : Checked α} (h : Numeric c) :
    c.violations.filter v.drops = [] ∧
      c.violations.filter (fun violation => !v.drops violation) = c.violations := by
  have hkept : ∀ violation ∈ c.violations, v.drops violation = false := by
    intro violation hmem
    rw [drops, h violation hmem, Bool.and_false]
  refine ⟨List.filter_eq_nil_iff.2 fun violation hmem => ?_,
    List.filter_eq_self.2 fun violation hmem => ?_⟩
  · simp [hkept violation hmem]
  · simp [hkept violation hmem]

theorem validate_eq (draft : DraftQuery) :
    v.validate draft = v.checkCriteria draft >>= v.conclude draft.pagination := by
  rw [validate, check_eq]
  cases v.checkCriteria draft with
  | error f => rfl
  | ok c =>
    change (v.checkPagination c.accepted.sort draft.pagination >>= _) >>= _ = conclude v _ c
    unfold conclude
    cases hp : v.checkPagination c.accepted.sort draft.pagination with
    | error f => rfl
    | ok p =>
      obtain ⟨hdropped, hkept⟩ := v.filter_numeric (numeric_pagination hp)
      simp only [bind, Except.bind, pure, Except.pure, List.filter_append, hdropped, hkept,
        List.append_nil]

end Validator
end RecordQuery
