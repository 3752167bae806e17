import RecordQuery.Proofs.Verdicts

/-!
# Findings

A validator goes through a draft part by part and writes down all that is wrong with it. What it
found decides on the outcome.

* `Validator.findings`: what one pass over a draft finds.
* `Validator.findings_of_parts`: the findings of a draft are those of its parts, each found as if
  the draft had no other.
* `Metadata.checkFilter_reports`: a filter on a field that may be used passes its check, or it is
  reported.
* `Validator.validate_accounts`: the outcome accounts for every finding and every filter, in either
  mode.
-/

namespace RecordQuery

/-! ## Checks -/

section Checks

variable {α : Type}

/-- What a check finds wrong: nothing if it accepts. -/
def findingsOf : Except Refusal α → Except Fault (List Violation)
  | .ok _ => .ok []
  | .error (.violations vs) => .ok vs
  | .error (.fault f) => .error f

/-- What is put together of several lists of results. -/
theorem flatten_mapM_cons {β : Type} (f : α → Except Fault (List β)) (x : α) (xs : List α) :
    ((x :: xs).mapM f).map List.flatten = do
      return (← f x) ++ (← (xs.mapM f).map List.flatten) := by
  rw [List.mapM_cons]
  cases f x with
  | error e => rfl
  | ok ys => cases xs.mapM f <;> rfl

theorem violations_gather_cons (x : Except Refusal α) (xs : List (Except Refusal α)) :
    (gather (x :: xs)).map (·.violations) = do
      return (← findingsOf x) ++ (← (gather xs).map (·.violations)) := by
  rcases x with (vs | f) | a
  · simp only [gather, findingsOf]
    cases gather xs <;> rfl
  · rfl
  · simp only [gather, findingsOf]
    cases gather xs <;> rfl

/-- Checks that are gathered find what each of them finds, up to the first fault. -/
theorem violations_gather (xs : List (Except Refusal α)) :
    (gather xs).map (·.violations) = (xs.mapM findingsOf).map List.flatten := by
  induction xs with
  | nil => rfl
  | cons x xs ih => rw [violations_gather_cons, ih, flatten_mapM_cons]

end Checks

/-! ## Parts of a draft -/

namespace DraftQuery

/-- What a draft consists of. -/
inductive Part where
  | filter (f : DraftFilter)
  | criterion (s : DraftSort)
  | search (s : DraftSearch)
  | visibility (raw : Value)
  | slice (p : DraftPagination)

/-- The parts of a draft, in the order in which they are checked. -/
def parts (draft : DraftQuery) : List Part :=
  draft.filters.map .filter ++ draft.sort.map .criterion ++
    [.search draft.search, .visibility draft.includeDeleted, .slice draft.pagination]

/-- The draft that has the part and no other. -/
def Part.alone : Part → DraftQuery
  | filter f => { grammar := .simple, filters := [f] }
  | criterion s => { grammar := .simple, sort := [s] }
  | search s => { grammar := .simple, search := s }
  | visibility raw => { grammar := .simple, includeDeleted := raw }
  | slice p => { grammar := .simple, pagination := p }

/-- The part is no slice after a cursor, which is read under the order of the draft. -/
def Part.IsOwn : Part → Prop
  | slice p => p.kind ≠ .cursor
  | _ => True

end DraftQuery

namespace Validator

variable (v : Validator)

/-- All that one pass over a draft finds wrong with it. -/
def findings (draft : DraftQuery) : Except Fault (List Violation) :=
  (v.check draft).map (·.violations)

/-- What is found wrong with a part, whatever the rest of the draft. -/
def partFindings : DraftQuery.Part → Except Fault (List Violation)
  | .filter f => findingsOf (v.metadata.checkFilter f)
  | .criterion s => findingsOf (v.checkSort s)
  | .search s => .ok (v.checkSearch s).violations
  | .visibility raw => .ok (checkIncludeDeleted raw).violations
  | .slice p => (v.checkPagination [] p).map (·.violations)

variable {v}

/-- Only a slice after a cursor is checked under the order of the draft. -/
theorem checkPagination_congr {p : DraftPagination} (h : p.kind ≠ .cursor)
    (sort sort' : List SortCriterion) : v.checkPagination sort p = v.checkPagination sort' p := by
  unfold checkPagination
  cases hkind : p.kind with
  | cursor => exact absurd hkind h
  | window | offset => rfl

/-- The filters, the order, the search, the visibility and the slice are gone through in turn. -/
theorem findings_eq {draft : DraftQuery} (h : draft.pagination.kind ≠ .cursor) :
    v.findings draft = do
      let filters ← (gather (draft.filters.map v.metadata.checkFilter)).map (·.violations)
      let sorts ← (gather (draft.sort.map v.checkSort)).map (·.violations)
      let slice ← (v.checkPagination [] draft.pagination).map (·.violations)
      return filters ++ sorts ++ (v.checkSearch draft.search).violations ++
        (checkIncludeDeleted draft.includeDeleted).violations ++ slice := by
  unfold findings check
  cases gather (draft.filters.map v.metadata.checkFilter) with
  | error f => rfl
  | ok filters =>
    cases gather (draft.sort.map v.checkSort) with
    | error f => rfl
    | ok sorts =>
      simp only [Except.map, bind, Except.bind, pure, Except.pure]
      rw [checkPagination_congr h _ []]
      cases v.checkPagination [] draft.pagination <;> rfl

theorem findings_eq_parts {draft : DraftQuery} (h : draft.pagination.kind ≠ .cursor) :
    v.findings draft = (draft.parts.mapM v.partFindings).map List.flatten := by
  have hfilters : (draft.filters.map DraftQuery.Part.filter).mapM v.partFindings
      = (draft.filters.map v.metadata.checkFilter).mapM findingsOf := by
    rw [List.mapM_map, List.mapM_map]
    rfl
  have hsorts : (draft.sort.map DraftQuery.Part.criterion).mapM v.partFindings
      = (draft.sort.map v.checkSort).mapM findingsOf := by
    rw [List.mapM_map, List.mapM_map]
    rfl
  rw [findings_eq h, violations_gather, violations_gather, DraftQuery.parts, List.mapM_append,
    List.mapM_append, hfilters, hsorts]
  simp only [List.mapM_cons, List.mapM_nil, partFindings]
  cases (draft.filters.map v.metadata.checkFilter).mapM findingsOf with
  | error f => rfl
  | ok filters =>
    cases (draft.sort.map v.checkSort).mapM findingsOf with
    | error f => rfl
    | ok sorts =>
      cases v.checkPagination [] draft.pagination with
      | error f => rfl
      | ok slice =>
        simp [Except.map, bind, Except.bind, pure, Except.pure, List.append_assoc]

/-! ## Parts by themselves -/

theorem partFindings_search_default : v.partFindings (.search {}) = .ok [] := rfl

theorem partFindings_visibility_default : v.partFindings (.visibility .null) = .ok [] := rfl

/-- Nothing is wrong with a slice that is not described. -/
theorem silent_slice_default {found : List Violation}
    (h : v.partFindings (.slice {}) = .ok found) : found = [] := by
  obtain ⟨c, hc, rfl⟩ := map_eq_ok.1 h
  obtain ⟨accepted, -, hc⟩ := bind_eq_ok.1 hc
  rw [pure_eq_ok] at hc
  exact hc ▸ rfl

/-- There is such a slice if pages have rows at all. -/
theorem partFindings_slice_default (hv : v.Sized) : v.partFindings (.slice {}) = .ok [] := by
  have hok : ∃ c, v.checkOffset {} = .ok c := checkOffset_ok_iff.2 (checkPageSize_within hv _).1
  obtain ⟨c, hc⟩ := hok
  have hfound : v.partFindings (.slice {}) = .ok c.violations := map_eq_ok.2 ⟨c, hc, rfl⟩
  rw [hfound, silent_slice_default hfound]

theorem kind_alone {part : DraftQuery.Part} (h : part.IsOwn) :
    part.alone.pagination.kind ≠ .cursor := by
  cases part with
  | slice p => exact h
  | _ => exact SliceKind.noConfusion

theorem isOwn_of_mem_parts {draft : DraftQuery} (h : draft.pagination.kind ≠ .cursor)
    {part : DraftQuery.Part} (hpart : part ∈ draft.parts) : part.IsOwn := by
  simp only [DraftQuery.parts, List.mem_append, List.mem_map, List.mem_cons, List.not_mem_nil,
    or_false] at hpart
  rcases hpart with (⟨f, -, rfl⟩ | ⟨s, -, rfl⟩) | rfl | rfl | rfl
  · trivial
  · trivial
  · trivial
  · trivial
  · exact h

/-- A part by itself stands beside a slice that is not described, unless it is a slice. -/
theorem findings_alone {part : DraftQuery.Part} (h : part.IsOwn) :
    v.findings part.alone = v.partFindings part ∨
      v.findings part.alone = do
        return (← v.partFindings part) ++ (← v.partFindings (.slice {})) := by
  rw [findings_eq_parts (kind_alone h)]
  have hsearch : v.partFindings (.search {}) = .ok [] := partFindings_search_default
  have hvisibility : v.partFindings (.visibility .null) = .ok [] := partFindings_visibility_default
  cases part with
  | filter f | criterion s | search s | visibility raw =>
    right
    simp only [DraftQuery.Part.alone, DraftQuery.parts, List.map_cons, List.map_nil,
      List.nil_append, List.cons_append, flatten_mapM_cons, hsearch, hvisibility, List.mapM_nil]
    generalize v.partFindings _ = own
    cases own <;> cases v.partFindings (.slice {}) <;>
      simp [bind, Except.bind, pure, Except.pure, Except.map]
  | slice p =>
    left
    simp only [DraftQuery.Part.alone, DraftQuery.parts, List.map_nil, List.nil_append,
      flatten_mapM_cons, hsearch, hvisibility, List.mapM_nil]
    cases v.partFindings (.slice p) <;> simp [bind, Except.bind, pure, Except.pure, Except.map]

/-- What is found with a draft of one part is found with the part. -/
theorem partFindings_of_alone {part : DraftQuery.Part} (h : part.IsOwn) {found : List Violation}
    (hfound : v.findings part.alone = .ok found) : v.partFindings part = .ok found := by
  rcases findings_alone h with halone | halone
  · rw [← halone, hfound]
  · rw [halone] at hfound
    obtain ⟨own, hown, hfound⟩ := bind_eq_ok.1 hfound
    obtain ⟨rest, hrest, hfound⟩ := bind_eq_ok.1 hfound
    rw [pure_eq_ok, silent_slice_default hrest, List.append_nil] at hfound
    rw [hown, hfound]

/-- With pages of a size, whatever happens to a draft of one part happens to the part. -/
theorem partFindings_eq_alone (hv : v.Sized) {part : DraftQuery.Part} (h : part.IsOwn) :
    v.findings part.alone = v.partFindings part := by
  rcases findings_alone h with halone | halone
  · exact halone
  · rw [halone, partFindings_slice_default hv]
    cases v.partFindings part <;> simp [bind, Except.bind, pure, Except.pure]

/-- All that is wrong with a draft is reported, part by part: the findings of one pass are those of
the parts, in their order, and each is what is found if it is the only part of a draft. -/
theorem findings_of_parts (v : Validator) {draft : DraftQuery}
    (h : draft.pagination.kind ≠ .cursor) :
    v.findings draft = (draft.parts.mapM v.partFindings).map List.flatten ∧
      (∀ part ∈ draft.parts, ∀ found, v.findings part.alone = .ok found →
        v.partFindings part = .ok found) ∧
      (v.Sized → ∀ part ∈ draft.parts, v.findings part.alone = v.partFindings part) := by
  refine ⟨findings_eq_parts h, fun part hpart found => ?_, fun hv part hpart => ?_⟩
  · exact partFindings_of_alone (isOwn_of_mem_parts h hpart)
  · exact partFindings_eq_alone hv (isOwn_of_mem_parts h hpart)

/-- Two filters, an order, a search, a visibility and a window, with one thing wrong in each but two
in the first filter. -/
def troubledDraft : DraftQuery where
  grammar := .simple
  filters := [⟨"rating", "between", .list [.text "high", .text "low"]⟩,
    ⟨"internal_notes", "contains", .text "x"⟩]
  sort := [⟨"genre", .text "upwards"⟩]
  search := { term := .text "noir", fields := ["rating"] }
  includeDeleted := .text "perhaps"
  pagination := { kind := .window, startRow := .int 5, endRow := .int 5 }

theorem troubledDraft_findings :
    (∃ found, lenientFilms.findings troubledDraft = .ok found ∧
      found.map (·.field) =
        ["rating", "rating", "internal_notes", "genre", "rating", "includeDeleted", "endRow"] ∧
      (troubledDraft.parts.mapM lenientFilms.partFindings).map List.flatten = .ok found) ∧
      ∀ part ∈ troubledDraft.parts,
        lenientFilms.findings part.alone = lenientFilms.partFindings part := by
  have hslice : troubledDraft.pagination.kind ≠ .cursor := SliceKind.noConfusion
  have hparts := findings_of_parts lenientFilms hslice
  exact ⟨⟨_, rfl, rfl, hparts.1.symm⟩, hparts.2.2 ⟨by decide, by decide⟩⟩

end Validator

/-! ## Filters -/

namespace Metadata

variable {md : Metadata} {f : DraftFilter}

/-- The violations are about the field, and no mode drops one of them. -/
structure Reports (field : String) (vs : List Violation) : Prop where
  ne_nil : vs ≠ []
  field_eq : ∀ w ∈ vs, w.field = field
  kept : ∀ w ∈ vs, w.reason.isWhitelist = false

theorem reports_refuse {α : Type} {field : String} {reason : Reason} {rejected : Value}
    {vs : List Violation}
    (h : (refuse field reason rejected : Except Refusal α) = .error (.violations vs))
    (hreason : reason.isWhitelist = false) : Reports field vs := by
  cases h
  exact ⟨by simp, by simp [Violation.about], by simpa [Violation.about] using hreason⟩

/-- A filter on a field that may be used is not refused in silence. -/
theorem checkFilter_reports (hfield : md.isFilterable f.field = true) {vs : List Violation}
    (h : md.checkFilter f = .error (.violations vs)) : Reports f.field vs := by
  unfold checkFilter at h
  rw [hfield] at h
  simp only [Bool.not_true, Bool.false_eq_true, if_false] at h
  split at h
  · exact reports_refuse h rfl
  split at h
  · exact reports_refuse h rfl
  · have hobjects := operand_objects (map_eq_error.1 h)
    exact ⟨hobjects.ne_nil, hobjects.field_eq, hobjects.kept⟩

/-- A filter on any other field is refused for its field alone. -/
theorem checkFilter_of_not_filterable (hfield : md.isFilterable f.field = false) :
    md.checkFilter f
      = .error (.violations [.about f.field .notFilterable (.text f.field)]) := by
  unfold checkFilter
  rw [hfield]
  rfl

/-- The criterion of a filter has its field and its operator. -/
theorem named_of_checkFilter {c : FilterCriterion} (h : md.checkFilter f = .ok c) :
    c.field = f.field ∧ c.operator.name = f.operator := by
  unfold checkFilter at h
  split at h
  · exact absurd h refuse_ne_ok
  split at h
  · exact absurd h refuse_ne_ok
  · rename_i op hop
    split at h
    · exact absurd h refuse_ne_ok
    · obtain ⟨value, -, rfl⟩ := map_eq_ok.1 h
      exact ⟨rfl, Operator.name_of_ofName? hop⟩

/-- If all filters on fields that may be used pass their checks, each of them has one criterion. -/
theorem forall₂_criteria {fs : List DraftFilter}
    (h : ∀ f ∈ fs, md.isFilterable f.field = true → ∃ c, md.checkFilter f = .ok c) :
    List.Forall₂ (fun f c => md.checkFilter f = .ok c)
      (fs.filter fun f => md.isFilterable f.field)
      ((fs.map md.checkFilter).filterMap Except.toOption) := by
  induction fs with
  | nil => exact .nil
  | cons f fs ih =>
    obtain ⟨hhead, htail⟩ := List.forall_mem_cons.1 h
    cases hfield : md.isFilterable f.field with
    | true =>
      obtain ⟨c, hc⟩ := hhead hfield
      rw [List.filter_cons_of_pos (by simpa using hfield), List.map_cons,
        List.filterMap_cons_some (by rw [hc]; rfl)]
      exact .cons hc (ih htail)
    | false =>
      rw [List.filter_cons_of_neg (by simpa using hfield), List.map_cons,
        List.filterMap_cons_none (by rw [checkFilter_of_not_filterable hfield]; rfl)]
      exact ih htail

end Metadata

/-! ## Outcomes -/

/-- The outcome accounts for what was found with a draft, and for all its filters. -/
structure Outcome.Accounts (md : Metadata) (strict : Bool) (draft : DraftQuery)
    (found : List Violation) (o : Outcome) : Prop where
  /-- In strict mode everything is reported. -/
  strict_violations : strict = true → o.violations = found ∧ o.dropped = []
  /-- Otherwise fields that may not be used are dropped, and the rest is reported. -/
  lenient_violations : strict = false →
    o.dropped = found.filter (fun w => w.reason.isWhitelist) ∧
      o.violations = found.filter fun w => !w.reason.isWhitelist
  spec_iff : o.spec.isSome = true ↔ o.violations = []
  /-- Every filter on a field that may be used has its one criterion. -/
  filters : ∀ spec, o.spec = some spec →
    List.Forall₂ (fun f c => md.checkFilter f = .ok c ∧ c.field = f.field ∧
        c.operator.name = f.operator)
      (draft.filters.filter fun f => md.isFilterable f.field) spec.filters
  strict_filters : strict = true → o.spec.isSome = true →
    ∀ f ∈ draft.filters, md.isFilterable f.field = true

namespace Validator

variable {v : Validator}

/-- The validator in strict mode, or in the other one. -/
def inMode (v : Validator) (strict : Bool) : Validator := { v with strict }

/-- The findings do not depend on the mode. -/
theorem check_inMode (strict : Bool) (draft : DraftQuery) :
    (v.inMode strict).check draft = v.check draft := rfl

/-- What is wrong with a filter is among the findings. -/
theorem mem_violations_of_check {draft : DraftQuery} {c : Checked Specification}
    (h : v.check draft = .ok c) {f : DraftFilter} (hf : f ∈ draft.filters) {vs : List Violation}
    (hvs : v.metadata.checkFilter f = .error (.violations vs)) {w : Violation} (hw : w ∈ vs) :
    w ∈ c.violations := by
  obtain ⟨filters, sorts, slice, hfilters, -, -, hviolations, -⟩ := check_eq_ok h
  have hmem := (mem_violations_iff hfilters).2 ⟨vs, hvs ▸ List.mem_map_of_mem hf, hw⟩
  simp [hviolations, hmem]

/-- If nothing that counts is found, the filters on fields that may be used have passed. -/
theorem checkFilter_of_check {draft : DraftQuery} {c : Checked Specification}
    (h : v.check draft = .ok c) (hnone : ∀ w ∈ c.violations, w.reason.isWhitelist = true)
    {f : DraftFilter} (hf : f ∈ draft.filters) (hfield : v.metadata.isFilterable f.field = true) :
    ∃ criterion, v.metadata.checkFilter f = .ok criterion := by
  obtain ⟨filters, sorts, slice, hfilters, -⟩ := check_eq_ok h
  have hsound := gathers_iff.1 ⟨filters, hfilters⟩ _ (List.mem_map_of_mem hf)
  rcases hcheck : v.metadata.checkFilter f with (vs | g) | criterion
  · have hreports := Metadata.checkFilter_reports hfield hcheck
    obtain ⟨w, hw⟩ := List.exists_mem_of_ne_nil vs hreports.ne_nil
    have hdropped := hnone w (mem_violations_of_check h hf hcheck hw)
    rw [hreports.kept w hw] at hdropped
    cases hdropped
  · exact absurd ⟨g, hcheck⟩ hsound
  · exact ⟨criterion, rfl⟩

theorem criteria_of_check {draft : DraftQuery} {c : Checked Specification}
    (h : v.check draft = .ok c) (hnone : ∀ w ∈ c.violations, w.reason.isWhitelist = true) :
    List.Forall₂ (fun f c => v.metadata.checkFilter f = .ok c ∧ c.field = f.field ∧
        c.operator.name = f.operator)
      (draft.filters.filter fun f => v.metadata.isFilterable f.field) c.accepted.filters := by
  obtain ⟨filters, sorts, slice, hfilters, -, -, -, haccepted⟩ := check_eq_ok h
  rw [haccepted, accepted_of_gather hfilters]
  refine (Metadata.forall₂_criteria fun f hf => checkFilter_of_check h hnone hf).imp ?_
  exact fun f c hc => ⟨hc, Metadata.named_of_checkFilter hc⟩

/-- The outcome of a draft, in strict mode or not, accounts for all that one pass found and for all
filters: what is found is reported or, if it is about a field that may not be used and the mode
allows it, dropped; there is a specification just if nothing is reported; and a filter has its
criterion in it unless it is dropped. A pass that ends with a fault has no outcome. -/
theorem validate_accounts (v : Validator) (strict : Bool) (draft : DraftQuery) :
    Matched (Outcome.Accounts v.metadata strict draft) (v.findings draft)
      ((v.inMode strict).validate draft) := by
  unfold findings validate
  rw [check_inMode]
  cases hcheck : v.check draft with
  | error f => exact .error f
  | ok c =>
    -- a specification is made just if all findings are dropped
    have hdropped (h : (c.violations.filter fun w => !(v.inMode strict).drops w).isEmpty = true) :
        ∀ w ∈ c.violations, strict = false ∧ w.reason.isWhitelist = true := by
      simpa [drops, inMode] using h
    refine .ok ⟨?_, ?_, ?_, ?_, ?_⟩
    · rintro rfl
      simp [drops, inMode]
    · rintro rfl
      exact ⟨rfl, rfl⟩
    · dsimp only
      cases c.violations.filter fun w => !(v.inMode strict).drops w <;> simp
    · intro spec hspec
      dsimp only at hspec
      split at hspec
      · rename_i hempty
        cases hspec
        exact criteria_of_check hcheck fun w hw => (hdropped hempty w hw).2
      · cases hspec
    · rintro rfl hspec f hf
      dsimp only at hspec
      split at hspec
      · rename_i hempty
        by_contra hfield
        -- the filter would be among the findings, and none is dropped
        have hrefused := Metadata.checkFilter_of_not_filterable (Bool.eq_false_iff.2 hfield)
        have hmem := mem_violations_of_check hcheck hf hrefused (List.mem_singleton_self _)
        cases (hdropped hempty _ hmem).1
      · cases hspec

end Validator
end RecordQuery
