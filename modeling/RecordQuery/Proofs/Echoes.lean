import RecordQuery.Proofs.Concealment
import RecordQuery.Proofs.Encodable
import RecordQuery.Proofs.Verdicts

/-!
# What answers repeat

An answer repeats operands: those that are accepted, in a format that shows the filters, and those
that are refused, in the violations.

* `Metadata.Suits.displays`: of the operands that a check accepts only those for floating numbers,
  for decimals and for custom filters can fail to stand in an answer.
* `DraftQuery.Readable`: all of a draft but its operands is made of texts and numbers that are
  finite.
* `Listing.run_encodable_iff`: an answer and the violations are encodable just if the operands are
  that they repeat.
-/

namespace RecordQuery

open RecordQuery.Store RecordQuery.Number RecordQuery.Calendar

/-! ## Accepted operands -/

/-- Only floating numbers and decimals among the values of a kind can fail to stand in an answer. -/
theorem Kind.Holds.displays {kind : Kind} {v : Value} (h : kind.Holds v) (hfloat : kind ≠ .float)
    (hdecimal : kind ≠ .decimal) : v.Displays := by
  cases h with
  | float => exact absurd rfl hfloat
  | decimal => exact absurd rfl hdecimal
  | _ => trivial

theorem Metadata.Suits.displays {md : Metadata} {field : String} {op : Operator} {v : Value}
    (h : md.Suits field op v) (hop : op ≠ .custom) (hfloat : md.kind field ≠ .float)
    (hdecimal : md.kind field ≠ .decimal) : v.Displays := by
  cases op with
  | custom => exact absurd rfl hop
  | isNull | isNotNull =>
    rw [show v = .null from h]
    trivial
  | isIn | notIn | between =>
    obtain ⟨vs, rfl, hvs⟩ := h
    exact Value.displaysList_iff.2 fun u hu => (hvs u hu).displays hfloat hdecimal
  | contains | startsWith | endsWith | regex =>
    obtain ⟨s, rfl⟩ := h
    trivial
  | equals | notEquals | gt | gte | lt | lte => exact Kind.Holds.displays h hfloat hdecimal

/-! ## Refused values -/

mutual

/-- A violation shows a value with its numbers. -/
theorem Value.isEncodable_answerable : ∀ v : Value,
    Json.isEncodable v.answerable = Json.isEncodable v
  | .null | .bool _ | .int _ | .float _ | .decimal _ | .date _ | .datetime _ | .uuid _ | .text _ =>
    rfl
  | .list items | .tuple items => isEncodableList_answerable items
  | .mapping entries => isEncodableEntries_answerable entries

theorem Value.isEncodableList_answerable : ∀ vs : List Value,
    Json.isEncodableList (answerableList vs) = Json.isEncodableList vs
  | [] => rfl
  | v :: vs => by
    rw [answerableList, Json.isEncodableList, Json.isEncodableList, isEncodable_answerable v,
      isEncodableList_answerable vs]

theorem Value.isEncodableEntries_answerable : ∀ es : Entries,
    Json.isEncodableEntries (answerableEntries es) = Json.isEncodableEntries es
  | [] => rfl
  | (k, v) :: es => by
    rw [answerableEntries, Json.isEncodableEntries, Json.isEncodableEntries,
      isEncodable_answerable v, isEncodableEntries_answerable es]

end

/-- A violation can be written. -/
def Violation.Encodable (w : Violation) : Prop := Json.isEncodable w.value = true

theorem Violation.encodable_iff {w : Violation} :
    w.Encodable ↔ Json.isEncodable w.rejected = true := by
  simp [Encodable, value, Json.isEncodable, Json.isEncodableEntries]

theorem Violation.encodable_about (field : String) (reason : Reason) {rejected : Value}
    (h : Json.isEncodable rejected = true) : (about field reason rejected).Encodable := by
  rw [encodable_iff, about, Value.isEncodable_answerable]
  exact h

namespace Metadata

variable {md : Metadata} {f : DraftFilter}

/-- The values that the violations of a filter show. -/
def refusedValues (md : Metadata) (f : DraftFilter) : List Value :=
  match md.checkFilter f with
  | .error (.violations vs) => vs.map (·.rejected)
  | _ => []

theorem exists_of_mem_refusedValues {r : Value} (h : r ∈ md.refusedValues f) :
    ∃ vs, md.checkFilter f = .error (.violations vs) ∧ ∃ w ∈ vs, w.rejected = r := by
  unfold refusedValues at h
  split at h
  · rename_i vs hvs
    exact ⟨vs, hvs, List.mem_map.1 h⟩
  · cases h

theorem mem_refusedValues {vs : List Violation} (h : md.checkFilter f = .error (.violations vs))
    {w : Violation} (hw : w ∈ vs) : w.rejected ∈ md.refusedValues f := by
  rw [refusedValues, h]
  exact List.mem_map_of_mem hw

/-- A violation that may be dropped shows the name of a field, and any other shows a name or objects
to the operand. -/
theorem checkFilter_violations {vs : List Violation}
    (h : md.checkFilter f = .error (.violations vs)) :
    (∃ reason s, vs = [.about f.field reason (.text s)]) ∨ Objects f.field f.value vs := by
  unfold checkFilter at h
  split at h
  · cases h
    exact .inl ⟨_, _, rfl⟩
  split at h
  · cases h
    exact .inl ⟨_, _, rfl⟩
  · split at h
    · cases h
      exact .inl ⟨_, _, rfl⟩
    · exact .inr (operand_objects (map_eq_error.1 h))

/-- What is refused of a filter is a name, the operand or one of its members. -/
theorem refusedValues_spec {r : Value} (h : r ∈ md.refusedValues f) :
    (∃ s, r = .text s) ∨ ∃ raw ∈ f.value :: operandsIn f.value, r = raw.answerable := by
  obtain ⟨vs, hvs, w, hw, rfl⟩ := exists_of_mem_refusedValues h
  rcases checkFilter_violations hvs with ⟨reason, s, rfl⟩ | hobjects
  · rw [List.mem_singleton.1 hw]
    exact .inl ⟨s, rfl⟩
  · exact .inr (hobjects.shown w hw)

end Metadata

/-! ## Drafts -/

/-- All numbers of a draft are finite, those in its operands apart. -/
structure DraftQuery.Readable (draft : DraftQuery) : Prop where
  directions : ∀ s ∈ draft.sort, Json.isEncodable s.direction = true
  includeDeleted : Json.isEncodable draft.includeDeleted = true
  page : Json.isEncodable draft.pagination.page = true
  pageSize : Json.isEncodable draft.pagination.pageSize = true
  startRow : Json.isEncodable draft.pagination.startRow = true
  endRow : Json.isEncodable draft.pagination.endRow = true

namespace Params

theorem last_encodable {v : Value} (h : Json.isEncodable v = true) :
    Json.isEncodable (last v) = true := by
  have hitems {items : List Value} (hitems : Json.isEncodableList items = true) :
      Json.isEncodable (items.getLast?.getD .null) = true := by
    cases hget : items.getLast? with
    | none => rfl
    | some w => exact Json.isEncodableList_iff.1 hitems w (List.mem_of_getLast? hget)
  cases v with
  | list items => exact hitems h
  | tuple items => exact hitems h
  | _ => exact h

variable {params : Params} (hparams : ∀ e ∈ params, Json.isEncodable e.2 = true)

include hparams

theorem first_encodable (names : List String) : Json.isEncodable (params.first names) = true := by
  induction names with
  | nil => rfl
  | cons name names ih =>
    have hget : Json.isEncodable ((params.get? name).getD .null) = true := by
      unfold Entries.get?
      cases hfind : params.find? fun e => e.1 == name with
      | none => rfl
      | some e => exact hparams e (List.mem_of_find?_eq_some hfind)
    have hlast := last_encodable hget
    unfold first
    simp only
    split
    · exact ih
    · exact hlast

end Params

theorem GridModel.direction_of_sortEntries {fieldKey : String} {criteria : List Value}
    {sort : List DraftSort} (h : sortEntries fieldKey criteria = .ok sort) :
    ∀ s ∈ sort, ∃ t, s.direction = .text t := by
  induction criteria generalizing sort with
  | nil =>
    cases h
    simp
  | cons v rest ih =>
    refine forall_of_append (fun xs hxs => ?_) (fun _ => ih) h
    cases v with
    | mapping entries =>
      cases hxs
      intro s hs
      split at hs
      · cases hs
      · rw [List.mem_singleton.1 hs]
        exact ⟨_, rfl⟩
    | _ => cases hxs

theorem GridModel.direction_of_sort {params : Params} {fieldKey : String} {sort : List DraftSort}
    (h : GridModel.sort params fieldKey = .ok sort) : ∀ s ∈ sort, ∃ t, s.direction = .text t := by
  obtain ⟨v, -, h⟩ := bind_eq_ok.1 h
  cases v with
  | null =>
    cases h
    simp
  | list criteria => exact direction_of_sortEntries h
  | _ => cases h

theorem RowWindow.direction_of_indexedSorts {tree : Entries} {found : List (Int × DraftSort)}
    (h : indexedSorts tree = .ok found) : ∀ p ∈ found, ∃ t, p.2.direction = .text t := by
  induction tree generalizing found with
  | nil =>
    cases h
    simp
  | cons e rest ih =>
    obtain ⟨key, v⟩ := e
    refine forall_of_append (fun xs hxs => ?_) (fun _ => ih) h
    unfold indexedSort at hxs
    split at hxs
    · simp only at hxs
      split_ifs at hxs
      · cases hxs
        simp
      · split at hxs
        · cases hxs
          simp [GridModel.directionOf]
        · cases hxs
    · cases hxs
      simp

theorem RowWindow.direction_of_flatSort {params : Params} {sort : List DraftSort}
    (h : RowWindow.flatSort params = .ok sort) : ∀ s ∈ sort, ∃ t, s.direction = .text t := by
  obtain ⟨found, hfound, h⟩ := bind_eq_ok.1 h
  cases h
  intro s hs
  obtain ⟨p, hp, rfl⟩ := List.mem_map.1 hs
  exact direction_of_indexedSorts hfound p ((List.mergeSort_perm _ _).mem_iff.1 hp)

theorem Simple.direction_of_order (params : Params) :
    ∀ s ∈ sortByKeys params ++ sortByList params, ∃ t, s.direction = .text t := by
  refine List.forall_mem_append.2 ⟨?_, ?_⟩
  · unfold sortByKeys
    simp only
    split
    · simp
    · simp
  · unfold sortByList
    split
    · intro s hs
      obtain ⟨part, -, hs⟩ := List.mem_flatMap.1 hs
      unfold sortPart at hs
      simp only at hs
      split at hs
      · cases hs
      · rw [List.mem_singleton.1 hs]
        exact ⟨_, rfl⟩
    · simp

namespace DraftQuery

variable {params : Params} {draft : DraftQuery}

/-- All directions in a draft are texts. -/
theorem direction_of_read (h : read params = .ok draft) :
    ∀ s ∈ draft.sort, ∃ t, s.direction = .text t := by
  unfold read at h
  split at h
  · obtain ⟨filters, -, h⟩ := bind_eq_ok.1 h
    obtain ⟨model, hmodel, h⟩ := bind_eq_ok.1 h
    obtain ⟨flat, hflat, h⟩ := bind_eq_ok.1 h
    cases h
    exact List.forall_mem_append.2
      ⟨GridModel.direction_of_sort hmodel, RowWindow.direction_of_flatSort hflat⟩
  · obtain ⟨model, -, h⟩ := bind_eq_ok.1 h
    obtain ⟨filters, -, h⟩ := bind_eq_ok.1 h
    obtain ⟨sort, hsort, h⟩ := bind_eq_ok.1 h
    cases h
    exact GridModel.direction_of_sort hsort
  · cases h
    exact Simple.direction_of_order params

theorem readable_of_read (hparams : ∀ e ∈ params, Json.isEncodable e.2 = true)
    (h : read params = .ok draft) : draft.Readable := by
  have hdirections : ∀ s ∈ draft.sort, Json.isEncodable s.direction = true := by
    intro s hs
    obtain ⟨t, ht⟩ := direction_of_read h s hs
    rw [ht]
    rfl
  have hfirst := Params.first_encodable hparams
  unfold read at h
  split at h
  · obtain ⟨filters, -, h⟩ := bind_eq_ok.1 h
    obtain ⟨model, -, h⟩ := bind_eq_ok.1 h
    obtain ⟨flat, -, h⟩ := bind_eq_ok.1 h
    cases h
    exact ⟨hdirections, hfirst _, rfl, rfl, hfirst _, hfirst _⟩
  · obtain ⟨model, -, h⟩ := bind_eq_ok.1 h
    obtain ⟨filters, -, h⟩ := bind_eq_ok.1 h
    obtain ⟨sort, -, h⟩ := bind_eq_ok.1 h
    cases h
    refine ⟨hdirections, hfirst _, ?_, hfirst _, rfl, rfl⟩
    simp only [withShared, DataTable.pageFromZero]
    split
    · rfl
    · split
      · rfl
      · exact hfirst _
  · cases h
    refine ⟨hdirections, hfirst _, ?_, ?_, ?_, ?_⟩
    all_goals
      simp only [Simple.read, withShared, Simple.pagination]
      split <;> first | rfl | exact hfirst _

theorem Readable.shaped (h : draft.Readable) (format : Format) :
    (Listing.shaped format draft).Readable := by
  unfold Listing.shaped
  split
  · refine ⟨h.directions, h.includeDeleted, rfl, ?_, rfl, rfl⟩
    simp only [Listing.asCursor]
    split
    · unfold Listing.windowSize
      split <;> rfl
    · exact h.pageSize
  · exact h

end DraftQuery

/-! ## Violations -/

namespace Validator

variable {v : Validator}

theorem checkPageSize_encodable {raw : Value} (h : Json.isEncodable raw = true) :
    ∀ w ∈ (v.checkPageSize raw).violations, w.Encodable := by
  unfold checkPageSize
  split
  · simp
  · split
    · simpa using Violation.encodable_about _ _ h
    · simp

theorem checkNonNegative_encodable (field : String) (default : Int) {raw : Value}
    (h : Json.isEncodable raw = true) :
    ∀ w ∈ (checkNonNegative field default raw).violations, w.Encodable := by
  unfold checkNonNegative
  split
  · simp
  split
  · simpa using Violation.encodable_about _ _ h
  · split
    · simpa using Violation.encodable_about _ _ h
    · simp

theorem checkWindow_encodable {draft : DraftQuery} (hdraft : draft.Readable)
    {p : Checked Pagination} (h : v.checkWindow draft.pagination = .ok p) :
    ∀ w ∈ p.violations, w.Encodable := by
  have hbounds (default : Int) := List.forall_mem_append.2
    ⟨checkNonNegative_encodable "startRow" 0 hdraft.startRow,
      checkNonNegative_encodable "endRow" default hdraft.endRow⟩
  unfold checkWindow at h
  simp only at h
  split at h
  · split at h
    · cases h
      refine List.forall_mem_append.2 ⟨hbounds _, ?_⟩
      simpa using Violation.encodable_about _ _ hdraft.endRow
    · obtain ⟨accepted, -, h⟩ := bind_eq_ok.1 h
      cases h
      exact hbounds _
  · cases h
    exact hbounds _

theorem checkCursor_encodable {draft : DraftQuery} (hdraft : draft.Readable)
    {sort : List SortCriterion} {p : Checked Pagination}
    (h : v.checkCursor sort draft.pagination = .ok p) : ∀ w ∈ p.violations, w.Encodable := by
  have hsize := checkPageSize_encodable (v := v) hdraft.pageSize
  unfold checkCursor at h
  simp only at h
  split at h
  · obtain ⟨accepted, -, h⟩ := bind_eq_ok.1 h
    cases h
    exact hsize
  split at h
  · obtain ⟨accepted, -, h⟩ := bind_eq_ok.1 h
    cases h
    exact hsize
  · cases h
  · obtain ⟨accepted, -, h⟩ := bind_eq_ok.1 h
    cases h
    refine List.forall_mem_append.2 ⟨hsize, ?_⟩
    simpa using Violation.encodable_about _ _ rfl

/-- The violations of a slice can be written. -/
theorem checkPagination_encodable {draft : DraftQuery} (hdraft : draft.Readable)
    {sort : List SortCriterion} {p : Checked Pagination}
    (h : v.checkPagination sort draft.pagination = .ok p) :
    ∀ w ∈ p.violations, w.Encodable := by
  have hsize := checkPageSize_encodable (v := v) hdraft.pageSize
  unfold checkPagination at h
  split at h
  · exact checkWindow_encodable hdraft h
  · exact checkCursor_encodable hdraft h
  · obtain ⟨accepted, -, h⟩ := bind_eq_ok.1 h
    cases h
    exact List.forall_mem_append.2 ⟨hsize, checkNonNegative_encodable _ _ hdraft.page⟩

theorem checkSort_encodable {draft : DraftSort} (hdraft : Json.isEncodable draft.direction = true)
    {vs : List Violation} (h : v.checkSort draft = .error (.violations vs)) :
    ∀ w ∈ vs, w.Encodable := by
  unfold checkSort at h
  split at h
  · cases h
    simpa using Violation.encodable_about _ _ rfl
  · split at h
    · cases h
    · cases h
      simpa using Violation.encodable_about _ _ hdraft

theorem checkSearch_encodable (draft : DraftSearch) :
    ∀ w ∈ (v.checkSearch draft).violations, w.Encodable := by
  unfold checkSearch
  simp only
  split
  · simp
  split
  · split
    · simpa using Violation.encodable_about _ _ rfl
    · simp
  · intro w hw
    obtain ⟨name, -, rfl⟩ := List.mem_map.1 hw
    exact Violation.encodable_about _ _ rfl

theorem checkIncludeDeleted_encodable {raw : Value} (h : Json.isEncodable raw = true) :
    ∀ w ∈ (checkIncludeDeleted raw).violations, w.Encodable := by
  unfold checkIncludeDeleted
  split
  · simp
  split
  · simp
  · simpa using Violation.encodable_about _ _ h

/-- Of the violations in an outcome only those that show an operand can fail to be written. -/
theorem violations_encodable_iff {draft : DraftQuery} (hdraft : draft.Readable) {outcome : Outcome}
    (h : v.validate draft = .ok outcome) :
    (∀ w ∈ outcome.violations, w.Encodable) ↔
      ∀ f ∈ draft.filters, ∀ r ∈ v.metadata.refusedValues f, Json.isEncodable r = true := by
  rw [validate_eq] at h
  obtain ⟨c, hc, h⟩ := bind_eq_ok.1 h
  obtain ⟨p, hp, h⟩ := bind_eq_ok.1 h
  rw [pure_eq_ok] at h
  subst h
  constructor
  · intro hall f hf r hr
    obtain ⟨vs, hvs, w, hw, rfl⟩ := Metadata.exists_of_mem_refusedValues hr
    rcases Metadata.checkFilter_violations hvs with ⟨reason, s, rfl⟩ | hobjects
    · rw [List.mem_singleton.1 hw]
      rfl
    · -- An objection to an operand is not dropped.
      refine Violation.encodable_iff.1 (hall w (List.mem_append_left _ (List.mem_filter.2 ?_)))
      refine ⟨mem_violations_of_checkFilter hc hf hvs hw, ?_⟩
      simp [drops, hobjects.kept w hw]
  · intro hall w hw
    rcases List.mem_append.1 hw with hw | hw
    · obtain ⟨filters, sorts, hfilters, hsorts, hviolations, -⟩ := checkCriteria_eq_ok hc
      have hmem := (List.mem_filter.1 hw).1
      rw [hviolations] at hmem
      simp only [List.mem_append] at hmem
      rcases hmem with ((hmem | hmem) | hmem) | hmem
      · obtain ⟨vs, hvs, hmem⟩ := (mem_violations_iff hfilters).1 hmem
        obtain ⟨f, hf, hcheck⟩ := List.mem_map.1 hvs
        exact Violation.encodable_iff.2 (hall f hf _ (Metadata.mem_refusedValues hcheck hmem))
      · obtain ⟨vs, hvs, hmem⟩ := (mem_violations_iff hsorts).1 hmem
        obtain ⟨s, hs, hcheck⟩ := List.mem_map.1 hvs
        exact checkSort_encodable (hdraft.directions s hs) hcheck w hmem
      · exact checkSearch_encodable _ w hmem
      · exact checkIncludeDeleted_encodable hdraft.includeDeleted w hmem
    · exact checkPagination_encodable hdraft hp w hw

end Validator

namespace Listing

variable {l : Listing}

theorem specify_eq_violations {draft : DraftQuery} {vs : List Violation}
    (h : l.specify draft = .error (.violations vs)) :
    ∃ outcome, l.validator.validate draft = .ok outcome ∧ outcome.violations = vs := by
  unfold specify at h
  split at h
  · cases h
  · rename_i outcome hvalidate
    split at h
    · cases h
    · cases h
      exact ⟨outcome, hvalidate, rfl⟩

/-- The violations of a request are those of its draft as the format wants it. -/
theorem run_eq_violations {store : RecordQuery.Store} {req : ListingRequest} {now : DateTime}
    {vs : List Violation} (h : l.run store req now = .error (.violations vs)) :
    ∃ draft format outcome, DraftQuery.read req.params = .ok draft ∧
      l.formatOf draft = .ok format ∧ l.validator.validate (shaped format draft) = .ok outcome ∧
      outcome.violations = vs := by
  unfold run at h
  rcases bind_eq_error.1 h with hplan | ⟨⟨format, execution⟩, -, h⟩
  · unfold plan at hplan
    rcases bind_eq_error.1 hplan with hread | ⟨draft, hread, hplan⟩
    · obtain ⟨e, -, he⟩ := mapError_eq_error.1 hread
      cases e <;> cases he
    rcases bind_eq_error.1 hplan with hformat | ⟨format, hformat, hplan⟩
    · obtain ⟨e, -, he⟩ := mapError_eq_error.1 hformat
      cases he
    rcases bind_eq_error.1 hplan with hexecution | ⟨execution, -, hplan⟩
    · rcases bind_eq_error.1 hexecution with hspec | ⟨spec, -, hspec⟩
      · obtain ⟨outcome, hvalidate, hviolations⟩ := specify_eq_violations hspec
        exact ⟨draft, format, outcome, mapError_eq_ok.1 hread, mapError_eq_ok.1 hformat, hvalidate,
          hviolations⟩
      · cases hspec
    · cases hplan
  · rcases bind_eq_error.1 h with hexecute | ⟨e, -, hrender⟩
    · obtain ⟨e, -, he⟩ := mapError_eq_error.1 hexecute
      cases he
    · obtain ⟨f, -, hf⟩ := mapError_eq_error.1 hrender
      cases hf

/-- An answer can be written unless it shows an operand with a number that is not finite, and so
can the violations: whatever the table holds and the request says besides. -/
theorem run_encodable_iff {md : Metadata} (hl : l.IsFor md) {t : Table}
    (hcolumns : t.columns = md.model.columns) (ht : t.Finite) {req : ListingRequest}
    (hparams : ∀ e ∈ req.params, Json.isEncodable e.2 = true) (now : DateTime) :
    (∀ format execution body, l.plan req = .ok (format, execution) →
      l.run t.run req now = .ok body →
      (Json.isEncodable (.mapping body) = true ↔
        (format.showsFilters = true → ∀ c ∈ execution.spec.filters, c.value.Displays))) ∧
    ∀ draft vs, DraftQuery.read req.params = .ok draft →
      l.run t.run req now = .error (.violations vs) →
      ((∀ w ∈ vs, w.Encodable) ↔
        ∀ f ∈ draft.filters, ∀ r ∈ md.refusedValues f, Json.isEncodable r = true) := by
  constructor
  · intro format execution body hplan hrun
    obtain ⟨e, he, hrender⟩ := (run_eq_ok hplan).1 hrun
    obtain ⟨-, happlied, htime⟩ := Executor.asked_of_execute he
    rw [Format.render_encodable_iff (Executor.records_encodable ht (hl.executor ▸ hcolumns) he)
      (by simp [htime, Binary64.isFinite, Binary64.zero]) hrender, happlied]
  · intro draft vs hread hrun
    obtain ⟨draft', format, outcome, hread', -, hvalidate, rfl⟩ := run_eq_violations hrun
    rw [hread] at hread'
    cases hread'
    have hdraft := (DraftQuery.readable_of_read hparams hread).shaped format
    rw [Validator.violations_encodable_iff hdraft hvalidate, filters_shaped, hl.validator]

/-- A request for the films with a rating that no double is near to. -/
def vastRating : ListingRequest where
  params := [("filter[rating]", .text "1e400")]

/-- What the request comes to. -/
def executionOfRating : ExecutionRequest where
  spec := {
    filters := [{
      field := "rating", operator := .equals, value := .decimal (.finite false 1 400),
      valueType := "decimal" }]
    pagination := .offset {
      page := 1, pageSize := 20, page_pos := Nat.one_pos, size_pos := Nat.succ_pos 19 } }
  needsTotal := true

/-- A table of no films. -/
def noFilms : Table where
  columns := Catalog.movies.columns

theorem vastRating_encodable :
    filmListing.plan vastRating = .ok (.standard, executionOfRating) ∧
      ∃ body, filmListing.run noFilms.run vastRating { date := default } = .ok body ∧
        Json.isEncodable (.mapping body) = false := by
  have hplan : filmListing.plan vastRating = .ok (.standard, executionOfRating) := by
    with_unfolding_all rfl
  obtain ⟨body, hrun⟩ := exists_ok_of_isOk
    (show (filmListing.run noFilms.run vastRating { date := default }).isOk = true by
      decide +kernel)
  have hfinite : noFilms.Finite := ⟨by decide, by simp [noFilms]⟩
  have hl : filmListing.IsFor ⟨Catalog.movies, 20, 100⟩ := ⟨rfl, rfl⟩
  have hencodable := (run_encodable_iff hl rfl hfinite (by decide)
    { date := default }).1 _ _ _ hplan hrun
  refine ⟨hplan, body, hrun, Bool.eq_false_iff.2 fun hbody => ?_⟩
  have hdisplays := hencodable.1 hbody rfl _ List.mem_cons_self
  exact absurd (hdisplays _ rfl) (by decide +kernel)

end Listing
end RecordQuery
