import RecordQuery.Proofs.Answers
import RecordQuery.Proofs.Confinement
import RecordQuery.Proofs.Executions

/-!
# Bounds of pages

A request may say anything about its slice. The slice that comes of it has rows, and at most as many
as the validator allows.

* `Pagination.Within`: the bounds of a slice.
* `Validator.checkPageSize_within`, `checkWindow_within`: sizes and windows are brought into the
  bounds, or there is a violation that no mode drops.
* `Format.render_data`: every format shows the records of the envelope.
* `Listing.pages_bounded`: no specification leaves the bounds, and no answer is longer than the
  greatest size of a page.
-/

namespace RecordQuery

open RecordQuery.Store

/-- The slice has rows, at most as many as the greatest size of a page. -/
def Pagination.Within (greatest : Int) : Pagination → Prop
  | .offset p => 1 ≤ p.page ∧ 1 ≤ p.pageSize ∧ (p.pageSize : Int) ≤ greatest
  | .window w => w.startRow < w.endRow ∧ (w.endRow : Int) ≤ w.startRow + greatest
  | .cursor c => 1 ≤ c.pageSize ∧ (c.pageSize : Int) ≤ greatest

namespace Pagination

theorem Within.limit {greatest : Int} {p : Pagination} (h : p.Within greatest) :
    1 ≤ p.limit ∧ p.limit ≤ greatest := by
  cases p with
  | offset p =>
    obtain ⟨-, hpos, hle⟩ := h
    simp only [Pagination.limit]
    omega
  | window w =>
    obtain ⟨hlt, hle⟩ := h
    simp only [Pagination.limit]
    omega
  | cursor c =>
    obtain ⟨hpos, hle⟩ := h
    simp only [Pagination.limit]
    omega

/-! ## Slices from numbers -/

theorem ofOffset?_within {greatest page size : Int} (hpage : 1 ≤ page)
    (hsize : 1 ≤ size ∧ size ≤ greatest) :
    ∃ p, ofOffset? page size = .ok p ∧ p.Within greatest := by
  have hpos : 1 ≤ page.toNat ∧ 1 ≤ size.toNat := by omega
  refine ⟨_, dif_pos hpos, hpos.1, hpos.2, ?_⟩
  simp only
  omega

theorem ofWindow?_within {greatest start stop : Int} (hstart : 0 ≤ start) (hlt : start < stop)
    (hle : stop ≤ start + greatest) :
    ∃ p, ofWindow? start stop = .ok p ∧ p.Within greatest := by
  have hpos : 0 ≤ start ∧ 1 ≤ stop.toNat := by omega
  refine ⟨_, dif_pos hpos, ?_, ?_⟩
  · simp only
    omega
  · simp only
    omega

theorem ofCursor?_within {greatest size : Int} (hsize : 1 ≤ size ∧ size ≤ greatest)
    (token : Option String) (position : Option (List Value)) :
    ∃ p, ofCursor? token size position = .ok p ∧ p.Within greatest := by
  have hpos : 1 ≤ size.toNat := by omega
  refine ⟨_, dif_pos hpos, hpos, ?_⟩
  simp only
  omega

end Pagination

namespace Validator

/-- The sizes of pages of the validator: the default one is positive, and not above the greatest. -/
structure Sized (v : Validator) : Prop where
  default_pos : 1 ≤ v.defaultPageSize
  default_le : v.defaultPageSize ≤ v.maxPageSize

theorem sized_ofMetadata {md : Metadata} {limit : Option Int} {strict : Bool}
    {secret : Option String} {now : Int}
    (h : 1 ≤ (ofMetadata md limit strict secret now).defaultPageSize) :
    (ofMetadata md limit strict secret now).Sized :=
  ⟨h, min_le_right _ _⟩

variable {v : Validator}

/-! ## Sizes and places -/

theorem checkPageSize_within (hv : v.Sized) (raw : Value) :
    1 ≤ (v.checkPageSize raw).accepted ∧ (v.checkPageSize raw).accepted ≤ v.maxPageSize := by
  have hdefault := And.intro hv.default_pos hv.default_le
  unfold checkPageSize
  split
  · exact hdefault
  split
  · exact hdefault
  · rename_i n _
    by_cases hn : n ≤ 0
    · simp only [hn, if_true]
      exact hdefault
    · simp only [hn, if_false]
      omega

theorem checkNonNegative_nonneg {field : String} {default : Int} (hdefault : 0 ≤ default)
    {raw : Value} {n : Int} (h : (checkNonNegative field default raw).accepted = some n) :
    0 ≤ n := by
  unfold checkNonNegative at h
  split at h
  · cases h
    exact hdefault
  split at h
  · cases h
  split at h
  · cases h
  · rename_i hn
    cases h
    exact Int.not_lt.1 hn

/-- If no place is accepted, there is a violation that no mode drops. -/
theorem checkNonNegative_keeps {field : String} {default : Int} {raw : Value}
    (h : (checkNonNegative field default raw).accepted = none) :
    ∃ violation ∈ (checkNonNegative field default raw).violations,
      violation.reason.isWhitelist = false := by
  unfold checkNonNegative at h ⊢
  split at h
  · cases h
  · rename_i hmissing
    rw [if_neg hmissing]
    split at h
    · exact ⟨_, List.mem_singleton_self _, rfl⟩
    split at h
    · rename_i hn
      rw [if_pos hn]
      exact ⟨_, List.mem_singleton_self _, rfl⟩
    · cases h

/-! ## Slices from drafts -/

theorem checkOffset_within (hv : v.Sized) (draft : DraftPagination) :
    ∃ c, v.checkOffset draft = .ok c ∧ c.accepted.Within v.maxPageSize := by
  obtain ⟨p, hp, hwithin⟩ := Pagination.ofOffset?_within
    (le_max_right ((checkNonNegative "page" 1 draft.page).accepted.getD 1) 1)
    (checkPageSize_within hv draft.pageSize)
  exact ⟨_, bind_eq_ok.2 ⟨p, hp, rfl⟩, hwithin⟩

/-- The window of a draft is within the bounds, or there is a violation that no mode drops. -/
theorem checkWindow_within (hv : v.Sized) (draft : DraftPagination) :
    ∃ c, v.checkWindow draft = .ok c ∧ (c.accepted.Within v.maxPageSize ∨
      ∃ violation ∈ c.violations, violation.reason.isWhitelist = false) := by
  have hpos := hv.default_pos
  have hle := hv.default_le
  unfold checkWindow
  simp only
  cases hstart : (checkNonNegative "startRow" 0 draft.startRow).accepted with
  | none =>
    obtain ⟨violation, hmem, hkeeps⟩ := checkNonNegative_keeps hstart
    exact ⟨_, rfl, .inr ⟨violation, List.mem_append_left _ hmem, hkeeps⟩⟩
  | some a =>
    have ha : 0 ≤ a := checkNonNegative_nonneg (Int.le_refl 0) hstart
    simp only [Option.getD_some]
    cases hstop : (checkNonNegative "endRow" (a + v.defaultPageSize) draft.endRow).accepted with
    | none =>
      obtain ⟨violation, hmem, hkeeps⟩ := checkNonNegative_keeps hstop
      exact ⟨_, rfl, .inr ⟨violation, List.mem_append_right _ hmem, hkeeps⟩⟩
    | some b =>
      by_cases hempty : b ≤ a
      · simp only [hempty, if_true]
        exact ⟨_, rfl, .inr ⟨.about "endRow" .emptyWindow draft.endRow, by simp, rfl⟩⟩
      · simp only [hempty, if_false]
        have hlt : a < min b (a + v.maxPageSize) := by omega
        obtain ⟨p, hp, hwithin⟩ := Pagination.ofWindow?_within ha hlt (min_le_right _ _)
        exact ⟨_, bind_eq_ok.2 ⟨p, hp, rfl⟩, .inl hwithin⟩

theorem checkCursor_within (hv : v.Sized) {sort : List SortCriterion} {draft : DraftPagination}
    {c : Checked Pagination} (h : v.checkCursor sort draft = .ok c) :
    c.accepted.Within v.maxPageSize := by
  have hsize := checkPageSize_within hv draft.pageSize
  have haccepted {token : Option String} {position : Option (List Value)} {p : Pagination}
      (hp : Pagination.ofCursor? token (v.checkPageSize draft.pageSize).accepted position = .ok p) :
      p.Within v.maxPageSize := by
    obtain ⟨p', hp', hwithin⟩ := Pagination.ofCursor?_within hsize token position
    rw [hp'] at hp
    cases hp
    exact hwithin
  unfold checkCursor at h
  simp only at h
  split at h
  · obtain ⟨p, hp, h⟩ := bind_eq_ok.1 h
    cases h
    exact haccepted hp
  split at h
  · obtain ⟨p, hp, h⟩ := bind_eq_ok.1 h
    cases h
    exact haccepted hp
  · cases h
  · obtain ⟨p, hp, h⟩ := bind_eq_ok.1 h
    cases h
    exact haccepted hp

/-- Nothing that is said about a numbered page or a window makes its check fail. -/
theorem checkPagination_ok (hv : v.Sized) (sort : List SortCriterion) {draft : DraftPagination}
    (hkind : draft.kind ≠ .cursor) : ∃ c, v.checkPagination sort draft = .ok c := by
  unfold checkPagination
  cases hk : draft.kind with
  | window =>
    obtain ⟨c, hc, -⟩ := checkWindow_within hv draft
    exact ⟨c, hc⟩
  | offset =>
    obtain ⟨c, hc, -⟩ := checkOffset_within hv draft
    exact ⟨c, hc⟩
  | cursor => exact absurd hk hkind

theorem checkPagination_within (hv : v.Sized) {sort : List SortCriterion}
    {draft : DraftPagination} {c : Checked Pagination} (h : v.checkPagination sort draft = .ok c)
    (hdrops : ∀ violation ∈ c.violations, v.drops violation = true) :
    c.accepted.Within v.maxPageSize := by
  unfold checkPagination at h
  cases hk : draft.kind with
  | window =>
    obtain ⟨c', hc', hwithin⟩ := checkWindow_within hv draft
    rw [hk, hc'] at h
    cases h
    rcases hwithin with hwithin | ⟨violation, hmem, hkeeps⟩
    · exact hwithin
    · have hdropped := hdrops violation hmem
      simp [drops, hkeeps] at hdropped
  | offset =>
    obtain ⟨c', hc', hwithin⟩ := checkOffset_within hv draft
    rw [hk, hc'] at h
    cases h
    exact hwithin
  | cursor =>
    rw [hk] at h
    exact checkCursor_within hv h

/-- The slice of a draft whose violations are all dropped is within the bounds. -/
theorem check_within (hv : v.Sized) {draft : DraftQuery} {c : Checked Specification}
    (h : v.check draft = .ok c) (hdrops : ∀ violation ∈ c.violations, v.drops violation = true) :
    c.accepted.pagination.Within v.maxPageSize := by
  obtain ⟨filters, sorts, pagination, -, -, hpagination, hviolations, haccepted⟩ := check_eq_ok h
  rw [haccepted]
  apply checkPagination_within hv hpagination
  intro violation hmem
  apply hdrops
  rw [hviolations]
  exact List.mem_append_right _ hmem

end Validator

/-! ## Answers -/

/-- Every format first says that the request has succeeded, and shows the records of the envelope. -/
theorem Format.render_starts {format : Format} {e : Envelope} {body : Entries}
    (h : format.render e = .ok body) : ∃ rest, body = e.success ++ rest := by
  cases format with
  | standard | dataTable =>
    obtain ⟨_, -, h⟩ := bind_eq_ok.1 h
    cases h
    exact ⟨_, rfl⟩
  | queryCache | cacheFriendly =>
    obtain ⟨_, -, h⟩ := bind_eq_ok.1 h
    obtain ⟨_, -, h⟩ := bind_eq_ok.1 h
    cases h
    exact ⟨_, rfl⟩
  | rowModel | infiniteScroll | cursor =>
    cases h
    exact ⟨_, rfl⟩

theorem Format.render_data {format : Format} {e : Envelope} {body : Entries}
    (h : format.render e = .ok body) :
    body.get? "data" = some (.list (e.records.map .mapping)) := by
  obtain ⟨rest, rfl⟩ := render_starts h
  rfl

namespace Listing

variable {l : Listing} {store : RecordQuery.Store} {req : ListingRequest}

theorem plan_within (hv : l.validator.Sized) {format : Format} {execution : ExecutionRequest}
    (h : l.plan req = .ok (format, execution)) :
    execution.spec.pagination.Within l.validator.maxPageSize := by
  obtain ⟨draft, spec, -, -, hspec, rfl⟩ := plan_eq_ok.1 h
  obtain ⟨c, hc, rfl, hdrops⟩ := specify_eq_ok.1 hspec
  have hwithin := Validator.check_within hv hc hdrops
  simp only
  split
  · exact hwithin
  · exact hwithin

/-- An answer shows at most as many records as the greatest page has. -/
theorem run_length_le (hv : l.validator.Sized) {now : Calendar.DateTime} {body : Entries}
    (h : l.run store req now = .ok body) :
    ∃ items, body.get? "data" = some (.list items) ∧
      (items.length : Int) ≤ l.validator.maxPageSize := by
  unfold run at h
  obtain ⟨⟨format, execution⟩, hplan, h⟩ := bind_eq_ok.1 h
  obtain ⟨e, he, h⟩ := bind_eq_ok.1 h
  have hlimit := (plan_within hv hplan).limit
  have hrecords := Executor.records_length_le (mapError_eq_ok.1 he) (by omega)
  refine ⟨_, Format.render_data (mapError_eq_ok.1 h), ?_⟩
  rw [List.length_map]
  omega

/-- Whatever a request says about its slice, what comes of it is a page from 1 on with a positive
size, or a window that ends after it starts, and never larger than the greatest page of the
validator. No answer shows more records than that, whatever the store replies. The greatest size is
not below the default one, which is to be positive. -/
theorem pages_bounded {v : Validator} {md : Metadata} {limit : Option Int} {strict : Bool}
    {secret : Option String} {seconds : Int} (hv : v = .ofMetadata md limit strict secret seconds)
    (hdefault : 1 ≤ v.defaultPageSize) :
    (∀ draft outcome spec, v.validate draft = .ok outcome → outcome.spec = some spec →
      spec.pagination.Within v.maxPageSize) ∧
    (∀ sort draft, draft.kind ≠ .cursor → ∃ c, v.checkPagination sort draft = .ok c) ∧
    ∀ l : Listing, l.validator = v → ∀ store req,
      (∀ format execution, l.plan req = .ok (format, execution) →
        execution.spec.pagination.Within v.maxPageSize) ∧
      ∀ now body, l.run store req now = .ok body →
        ∃ items, body.get? "data" = some (.list items) ∧ (items.length : Int) ≤ v.maxPageSize := by
  subst hv
  have hsized := Validator.sized_ofMetadata hdefault
  refine ⟨?_, ?_, ?_⟩
  · intro draft outcome spec h hs
    obtain ⟨c, hc, rfl, hdrops⟩ := Validator.validate_eq_ok h hs
    exact Validator.check_within hsized hc hdrops
  · intro sort draft hkind
    exact Validator.checkPagination_ok hsized sort hkind
  · intro l hl store req
    rw [← hl] at hsized ⊢
    constructor
    · intro format execution hplan
      exact plan_within hsized hplan
    · intro now body hrun
      exact run_length_le hsized hrun

/-- A request for a window of very many quotes, to be scrolled through. -/
def widestScroll : ListingRequest where
  params := [("format", .text "infinite-scroll"), ("startRow", .text "5"),
    ("endRow", .text "1_000_000")]

/-- What the request comes to: a page of the greatest size. -/
def executionOfScroll : ExecutionRequest where
  spec := { pagination := .cursor { pageSize := 100 } }

theorem widestScroll_bounded :
    quoteListing.plan widestScroll = .ok (.infiniteScroll, executionOfScroll) ∧
      executionOfScroll.spec.pagination.Within 100 ∧
      ∃ body items, quoteListing.run quotesBefore.run widestScroll { date := default } = .ok body ∧
        body.get? "data" = some (.list items) ∧ (items.length : Int) ≤ 100 := by
  have hplan : quoteListing.plan widestScroll = .ok (.infiniteScroll, executionOfScroll) := by
    with_unfolding_all rfl
  have ht : quotesBefore.IsOf ⟨Catalog.movieQuotes, 20, 100⟩ :=
    ⟨rfl, by decide +kernel, by decide +kernel⟩
  obtain ⟨body, hrun⟩ :=
    run_of_ready ht ⟨⟨_, rfl, rfl⟩, by decide +kernel⟩ (by decide +kernel) hplan
    rfl rfl rfl (by decide) { date := default }
  have hv : quoteListing.validator = .ofMetadata ⟨Catalog.movieQuotes, 20, 100⟩ none true none 0 :=
    rfl
  obtain ⟨-, -, hanswers⟩ := pages_bounded hv (by decide)
  obtain ⟨hplans, hlength⟩ := hanswers quoteListing rfl quotesBefore.run widestScroll
  obtain ⟨items, hitems, hle⟩ := hlength _ _ hrun
  exact ⟨hplan, hplans _ _ hplan, body, items, hrun, hitems, hle⟩

end Listing
end RecordQuery
