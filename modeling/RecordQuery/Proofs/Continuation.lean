import RecordQuery.Proofs.Pages
import RecordQuery.Proofs.Parameters

/-!
# Requests that go on

A request goes on with a cursor as a further parameter.

* `ListingRequest.continued`: the request with a cursor.
* `DraftQuery.read_cursor`: a cursor changes nothing else of what is read.
* `Listing.plan_continued`: the plan of the request with a cursor is that of the request itself, for
  the slice after the position.
-/

namespace RecordQuery

open RecordQuery.Store

/-! ## Drafts -/

/-- The same request, going on after a cursor. -/
def ListingRequest.continued (req : ListingRequest) (token : String) : ListingRequest :=
  { req with params := req.params.put "cursor" (.text token) }

/-- The request carries no cursor, or a blank one. -/
def ListingRequest.isFresh (req : ListingRequest) : Prop :=
  (Params.first req.params ["cursor", "after"]).trimmed = []

/-- The draft with a cursor, as it was written, and a number of parameters. -/
def DraftQuery.withCursor (draft : DraftQuery) (token : String) (count : Nat) : DraftQuery :=
  { draft with
    pagination := { draft.pagination with cursor := .text token }
    paramCount := count }

section Cursor

variable (params : Params) {token : String}

theorem Params.first_cursor (htoken : token ≠ "") :
    first (params.put "cursor" (.text token)) ["cursor", "after"] = .text token := by
  rw [first, Entries.get?_put_self]
  simp [last, Value.isMissing, Value.isNull, Value.isEmptyText, htoken]

/-- What all grammars have in common is the same with a cursor, the cursor itself apart. -/
theorem DraftQuery.withShared_cursor (draft : DraftQuery) (htoken : token ≠ "") :
    draft.withShared (params.put "cursor" (.text token))
      = (draft.withShared params).withCursor (Params.trimmedText (.text token))
        (params.put "cursor" (.text token)).length := by
  unfold DraftQuery.withShared
  have hformat : "cursor" ∉ ["responseFormat", "format"] := by decide
  have hdeleted : "cursor" ∉ ["includeDeleted", "include_deleted"] := by decide
  have htotal : "cursor" ∉ ["includeTotal", "include_total"] := by decide
  simp only [Params.first_cursor params htoken, Params.first_put params _ hformat,
    Params.first_put params _ hdeleted, Params.first_put params _ htotal]
  rfl

/-- With a cursor, the shared parts of a draft stay, the cursor itself apart. -/
theorem DraftQuery.withShared_of_cursor (htoken : token ≠ "") {draft : DraftQuery}
    (h : read params = .ok draft) :
    draft.withShared (params.put "cursor" (.text token))
      = draft.withCursor (Params.trimmedText (.text token))
        (params.put "cursor" (.text token)).length := by
  rw [withShared_cursor params draft htoken, withShared_of_read h]

/-- The slices of a simple request are turned into slices after cursors by a cursor; the size of
their pages stays. -/
theorem Simple.read_cursor (htoken : token ≠ "") :
    read (params.put "cursor" (.text token))
      = { read params with
          pagination := {
            kind := .cursor
            pageSize := (read params).pagination.pageSize
            cursor := .text (Params.trimmedText (.text token)) }
          paramCount := (params.put "cursor" (.text token)).length } := by
  have hpagination : pagination (params.put "cursor" (.text token))
      = { kind := .cursor, pageSize := (pagination params).pageSize } := by
    unfold pagination
    rw [Params.first_cursor params htoken, Params.aside_cursor.first_put _ _ (by decide)]
    cases (params.first ["cursor", "after"]).isNull <;> rfl
  unfold read
  rw [DraftQuery.withShared_cursor params _ htoken, filters_put _ _ Params.aside_cursor,
    order_put _ _ Params.aside_cursor, hpagination, Params.aside_cursor.first_put _ _ (by decide),
    Params.aside_cursor.searchFields_put]
  rfl

end Cursor

/-! ## Formats -/

/-- Only a request with a cursor has by itself a format that goes on after cursors. -/
theorem DraftQuery.isCursor_of_natural {draft : DraftQuery} {l : Listing} {format : Format}
    (h : l.formatOf draft = .ok format) (hnature : format.nature = .cursor)
    (hnone : draft.responseFormat = none) : draft.pagination.kind = .cursor := by
  by_contra hkind
  have hnames (f : Format) : Format.ofName? (.text f.id) = .ok f := by
    cases f <;> decide +kernel
  have hnatural : draft.naturalFormat = draft.grammar.naturalFormat := by
    rw [naturalFormat, if_neg hkind]
  rw [Listing.formatOf, hnone, Option.getD_none, hnatural, Format.resolve, hnames] at h
  obtain rfl : draft.grammar.naturalFormat = format := Except.ok.inj h
  cases hgrammar : draft.grammar <;> (rw [hgrammar] at hnature; cases hnature)

/-- The format stays when a slice becomes one after a cursor. -/
theorem Listing.formatOf_congr {draft draft' : DraftQuery} {l : Listing} {format : Format}
    (h : l.formatOf draft = .ok format) (hnature : format.nature = .cursor)
    (hresponse : draft'.responseFormat = draft.responseFormat)
    (hkind : draft.pagination.kind = .cursor → draft'.pagination.kind = .cursor) :
    l.formatOf draft' = .ok format := by
  rw [← h]
  unfold Listing.formatOf
  rw [hresponse]
  cases hr : draft.responseFormat with
  | some s => rfl
  | none =>
    have hcursor := DraftQuery.isCursor_of_natural h hnature hr
    rw [Option.getD_none, Option.getD_none, DraftQuery.naturalFormat, DraftQuery.naturalFormat,
      if_pos hcursor, if_pos (hkind hcursor)]

theorem Listing.shaped_withCursor (format : Format) (draft : DraftQuery) (token : String)
    (count : Nat) :
    shaped format (draft.withCursor token count)
      = (shaped format draft).withCursor token count := by
  unfold shaped
  have hkind : (draft.withCursor token count).pagination.kind = draft.pagination.kind := rfl
  rw [hkind]
  split <;> rfl

/-- In a format that goes on after cursors, a request reads the same with a cursor, and has the same
format. -/
theorem DraftQuery.read_cursor {params : Params} {token : String} (htoken : token ≠ "")
    {draft : DraftQuery} (h : read params = .ok draft) {l : Listing} {format : Format}
    (hformat : l.formatOf draft = .ok format) (hnature : format.nature = .cursor) :
    ∃ draft', read (params.put "cursor" (.text token)) = .ok draft' ∧
      l.formatOf draft' = .ok format ∧
      Listing.shaped format draft' = (Listing.shaped format draft).withCursor
        (Params.trimmedText (.text token)) (params.put "cursor" (.text token)).length := by
  have hshared := withShared_of_cursor params htoken h
  unfold read at h ⊢
  rw [Grammar.of_put params _ Params.aside_cursor]
  cases hgrammar : Grammar.of params with
  | rowWindow =>
    simp only [hgrammar] at h
    have hread := RowWindow.read_put params (.text token) Params.aside_cursor
    rw [h, Except.map, hshared] at hread
    exact ⟨_, hread, Listing.formatOf_congr hformat hnature rfl id, Listing.shaped_withCursor ..⟩
  | dataTable =>
    simp only [hgrammar] at h
    have hread := DataTable.read_put params (.text token) Params.aside_cursor
    rw [h, Except.map, hshared] at hread
    exact ⟨_, hread, Listing.formatOf_congr hformat hnature rfl id, Listing.shaped_withCursor ..⟩
  | simple =>
    rw [hgrammar] at h
    obtain rfl : Simple.read params = draft := Except.ok.inj h
    refine ⟨_, congrArg Except.ok (Simple.read_cursor params htoken),
      Listing.formatOf_congr hformat hnature rfl fun _ => rfl, ?_⟩
    -- A slice after a blank cursor stays one; a page becomes one, with the same size.
    have hkinds : (Simple.pagination params).kind = .cursor ∧
        Simple.pagination params
          = { kind := .cursor, pageSize := (Simple.pagination params).pageSize } ∨
        (Simple.pagination params).kind = .offset := by
      unfold Simple.pagination
      cases (params.first ["cursor", "after"]).isNull with
      | true => exact .inr rfl
      | false => exact .inl ⟨rfl, rfl⟩
    unfold Listing.shaped
    rw [if_neg (by simp)]
    rcases hkinds with ⟨hkind, hpagination⟩ | hkind
    · have hcursor : (Simple.read params).pagination.kind = .cursor := hkind
      rw [if_neg (by simp [hcursor])]
      unfold Simple.read DraftQuery.withShared DraftQuery.withCursor
      rw [hpagination]
    · have hoffset : (Simple.read params).pagination.kind = .offset := hkind
      rw [if_pos ⟨hnature, by simp [hoffset]⟩, DraftQuery.withCursor, Listing.asCursor, hoffset]
      rfl

/-! ## Validation -/

/-- The validator at another time. -/
def Validator.at (v : Validator) (now : Int) : Validator := { v with now }

/-- The listing at another time. -/
def Listing.at (l : Listing) (now : Int) : Listing := { l with validator := l.validator.at now }

namespace Validator

/-- The slice of a draft after a position, or from the start, with what is wrong with its size. -/
def cursorSlice (v : Validator) (draft : DraftPagination) (token : Option String)
    (position : Option (List Value))
    (size_pos : 1 ≤ (v.checkPageSize draft.pageSize).accepted.toNat) : Checked Pagination where
  violations := (v.checkPageSize draft.pageSize).violations
  accepted := .cursor {
    token, position, size_pos, pageSize := (v.checkPageSize draft.pageSize).accepted.toNat }

variable {v : Validator} {sort : List SortCriterion} {draft : DraftPagination}

/-- A blank cursor asks for the first page. -/
theorem checkCursor_blank (hblank : draft.cursor.trimmedOrEmpty = [])
    {c : Checked Pagination} (h : v.checkCursor sort draft = .ok c) :
    ∃ size_pos, c = v.cursorSlice draft none none size_pos := by
  unfold checkCursor at h
  rw [hblank] at h
  obtain ⟨pagination, hpagination, h⟩ := bind_eq_ok.1 h
  rw [pure_eq_ok] at h
  unfold Pagination.ofCursor? at hpagination
  split at hpagination
  · rename_i hsize
    cases hpagination
    exact ⟨hsize, h.symm⟩
  · cases hpagination

/-- Nothing is read at the time of a blank cursor. -/
theorem checkCursor_at (hblank : draft.cursor.trimmedOrEmpty = []) (now : Int) :
    (v.at now).checkCursor sort draft = v.checkCursor sort draft := by
  unfold checkCursor
  simp only [hblank, String.ofList_nil, if_true]
  rfl

/-- A cursor asks for the page after its position, if it can be read. -/
theorem checkCursor_token {token : String} (htoken : token ≠ "")
    (hcursor : draft.cursor.trimmedOrEmpty = token.toList) {position : List Value}
    (hdecode : Cursor.decode v.secret v.now token (v.metadata.effectiveSort sort) = .ok position)
    (size_pos : 1 ≤ (v.checkPageSize draft.pageSize).accepted.toNat) :
    v.checkCursor sort draft = .ok (v.cursorSlice draft (some token) (some position) size_pos) := by
  unfold checkCursor
  rw [hcursor, String.ofList_toList]
  simp only [if_neg htoken, hdecode]
  simp only [Pagination.ofCursor?, dif_pos size_pos, bind, Except.bind, pure, Except.pure]
  rfl

/-- The parts of a draft for a slice after a cursor are checked without regard to the time and to
the cursor, as long as it can be read. -/
theorem check_cursor {draft : DraftQuery} (hkind : draft.pagination.kind = .cursor)
    (hblank : draft.pagination.cursor.trimmedOrEmpty = []) {c : Checked Specification}
    (h : v.check draft = .ok c) :
    ∃ page : CursorPage, c.accepted.pagination = .cursor page ∧ page.position = none ∧
      ∀ now, (v.at now).check draft = .ok c ∧
        ∀ token count position, token ≠ "" → Text.trimChars token.toList = token.toList →
          Cursor.decode v.secret now token (v.metadata.effectiveSort c.accepted.sort)
            = .ok position →
          (v.at now).check (draft.withCursor token count) = .ok { c with accepted :=
            { c.accepted with pagination := .cursor { page with
              token := some token, position := some position } } } := by
  obtain ⟨filters, sorts, pagination, hfilters, hsorts, hpagination, hviolations, haccepted⟩ :=
    check_eq_ok h
  obtain ⟨violations, accepted⟩ := c
  obtain rfl : violations = _ := hviolations
  obtain rfl : accepted = _ := haccepted
  unfold checkPagination at hpagination
  simp only [hkind] at hpagination
  obtain ⟨size_pos, rfl⟩ := checkCursor_blank hblank hpagination
  refine ⟨_, rfl, rfl, fun now => ⟨?_, ?_⟩⟩
  · have hslice : (v.at now).checkPagination (firstOfEach sorts.accepted) draft.pagination
        = .ok (v.cursorSlice draft.pagination none none size_pos) := by
      unfold checkPagination
      simp only [hkind]
      rw [checkCursor_at hblank]
      exact hpagination
    exact bind_eq_ok.2 ⟨filters, hfilters, bind_eq_ok.2 ⟨sorts, hsorts, bind_eq_ok.2
      ⟨_, hslice, rfl⟩⟩⟩
  · intro token count position htoken htrim hdecode
    have hcursor : (draft.withCursor token count).pagination.cursor.trimmedOrEmpty
        = token.toList := by
      have htruthy : (Value.text token).isTruthy = true := by simp [Value.isTruthy, htoken]
      show (Value.text token).trimmedOrEmpty = _
      rw [Value.trimmedOrEmpty, if_pos htruthy]
      exact htrim
    have hslice : (v.at now).checkPagination (firstOfEach sorts.accepted)
        (draft.withCursor token count).pagination
        = .ok (v.cursorSlice draft.pagination (some token) (some position) size_pos) := by
      unfold checkPagination
      have hkind' : (draft.withCursor token count).pagination.kind = .cursor := hkind
      simp only [hkind']
      exact checkCursor_token (v := v.at now) htoken hcursor hdecode size_pos
    exact bind_eq_ok.2 ⟨filters, hfilters, bind_eq_ok.2 ⟨sorts, hsorts, bind_eq_ok.2
      ⟨_, hslice, rfl⟩⟩⟩

end Validator
/-! ## Plans -/

/-- Where the cursor of a draft comes from. -/
theorem DraftQuery.cursor_of_read {params : Params} {draft : DraftQuery}
    (h : read params = .ok draft) :
    draft.pagination.cursor = if (params.first ["cursor", "after"]).isNull then .null
      else .text (Params.trimmedText (params.first ["cursor", "after"])) := by
  rw [← withShared_of_read h]
  rfl

namespace Listing

theorem shaped_kind {format : Format} (h : format.nature = .cursor) (draft : DraftQuery) :
    (shaped format draft).pagination.kind = .cursor := by
  unfold shaped
  by_cases hkind : draft.pagination.kind = .cursor
  · rw [if_neg (by simp [hkind]), hkind]
  · rw [if_pos ⟨h, hkind⟩]
    rfl

theorem shaped_cursor (format : Format) (draft : DraftQuery) :
    (shaped format draft).pagination.cursor = draft.pagination.cursor := by
  unfold shaped
  split <;> rfl

/-- The cursor of a fresh request is blank in its draft. -/
theorem blank_of_isFresh {req : ListingRequest} (hfresh : req.isFresh) {draft : DraftQuery}
    (h : DraftQuery.read req.params = .ok draft) (format : Format) :
    (shaped format draft).pagination.cursor.trimmedOrEmpty = [] := by
  rw [shaped_cursor, DraftQuery.cursor_of_read h]
  split
  · rfl
  · have htrimmed : Params.trimmedText (Params.first req.params ["cursor", "after"]) = "" := by
      rw [Params.trimmedText, hfresh]
    rw [htrimmed]
    rfl

/-- A fresh request in a format that goes on after cursors asks for a first page, at any time. With
a cursor it asks for the same, but for the page after the position. -/
theorem plan_continued {l : Listing} {req : ListingRequest} {format : Format}
    {execution : ExecutionRequest} (hplan : l.plan req = .ok (format, execution))
    (hnature : format.nature = .cursor) (hfresh : req.isFresh) :
    ∃ page : CursorPage, execution.spec.pagination = .cursor page ∧ page.position = none ∧
      ∀ now, (l.at now).plan req = .ok (format, execution) ∧
        ∀ token position, token ≠ "" → Text.trimChars token.toList = token.toList →
          Cursor.decode l.validator.secret now token
            (l.validator.metadata.effectiveSort execution.spec.sort) = .ok position →
          (l.at now).plan (req.continued token) = .ok (format, execution.paged
            (.cursor { page with token := some token, position := some position })) := by
  obtain ⟨draft, spec, hdraft, hformat, hspec, rfl⟩ := plan_eq_ok.1 hplan
  obtain ⟨c, hc, rfl, hdropped⟩ := specify_eq_ok.1 hspec
  obtain ⟨page, hpage, hposition, hcheck⟩ := Validator.check_cursor (shaped_kind hnature draft)
    (blank_of_isFresh hfresh hdraft format) hc
  refine ⟨page, ?_, hposition, fun now => ⟨?_, ?_⟩⟩
  · cases req.deletedOnly <;> exact hpage
  · exact plan_eq_ok.2 ⟨draft, c.accepted, hdraft, hformat,
      specify_eq_ok.2 ⟨c, (hcheck now).1, rfl, hdropped⟩, rfl⟩
  · intro token position htoken htrim hdecode
    have hsort : (if req.deletedOnly then { c.accepted with includeDeleted := true }
        else c.accepted).sort = c.accepted.sort := by
      cases req.deletedOnly <;> rfl
    rw [hsort] at hdecode
    obtain ⟨draft', hdraft', hformat', hshaped⟩ :=
      DraftQuery.read_cursor htoken hdraft hformat hnature
    have htext : Params.trimmedText (.text token) = token := by
      have htrimmed : (Value.text token).trimmed = Text.trimChars token.toList := rfl
      rw [Params.trimmedText, htrimmed, htrim, String.ofList_toList]
    rw [htext] at hshaped
    have hchecked := (hcheck now).2 token
      (Entries.put req.params "cursor" (.text token)).length position htoken htrim hdecode
    rw [← hshaped] at hchecked
    have htotal : (shaped format draft').includeTotal = (shaped format draft).includeTotal := by
      rw [hshaped]
      rfl
    refine plan_eq_ok.2 ⟨draft', _, hdraft', hformat',
      specify_eq_ok.2 ⟨_, hchecked, rfl, hdropped⟩, ?_⟩
    rw [htotal]
    unfold ExecutionRequest.paged ListingRequest.continued
    cases req.deletedOnly <;> rfl

end Listing
end RecordQuery
