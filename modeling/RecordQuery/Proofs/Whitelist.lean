import Mathlib.Data.List.DropRight
import RecordQuery.Model.Catalog
import RecordQuery.Proofs.Results
import RecordQuery.Validation.Validator

/-!
# The whitelist

A specification reaches only what the model declares. Requests name fields and operators as they
like, so this is where a name that is not allowed has to stop.

* `Specification.Whitelisted`: what a specification may contain under the metadata of a model.
* `spec_whitelisted`: every specification that a validator gives is whitelisted, whatever the draft,
  the model and the mode.
-/

namespace RecordQuery

open Text

/-! ## Trimmed texts -/

theorem stripChars_idem (p : Char → Bool) (cs : List Char) :
    stripChars p (stripChars p cs) = stripChars p cs := by
  have hpre : stripChars p cs <+: cs.dropWhile p := List.rdropWhile_prefix p _
  have hhead : (stripChars p cs).dropWhile p = stripChars p cs := by
    rw [List.dropWhile_eq_self_iff]
    intro h
    obtain ⟨rest, hrest⟩ := hpre
    have hne : cs.dropWhile p ≠ [] := by
      intro hnil
      rw [hnil] at hrest
      have := (List.append_eq_nil_iff.1 hrest).1
      simp [this] at h
    have hget : (stripChars p cs)[0] = (cs.dropWhile p).head hne := by
      simp only [← hrest, List.head_append_of_ne_nil (List.ne_nil_of_length_pos h),
        List.head_eq_getElem]
    rw [hget, List.head_dropWhile_not p hne]
    exact Bool.false_ne_true
  change List.rdropWhile p ((stripChars p cs).dropWhile p) = _
  rw [hhead]
  exact List.rdropWhile_idempotent p (cs.dropWhile p)

theorem trimChars_idem (cs : List Char) : trimChars (trimChars cs) = trimChars cs :=
  stripChars_idem _ _

theorem trimChars_trimmedOrEmpty (v : Value) :
    trimChars v.trimmedOrEmpty = v.trimmedOrEmpty := by
  unfold Value.trimmedOrEmpty
  split
  · exact trimChars_idem _
  · rfl

/-! ## What a specification may contain -/

/-- The field has the operator by its kind or, if it is the custom one, by a declaration. -/
def Metadata.Offers (md : Metadata) (field : String) (op : Operator) : Prop :=
  op ∈ (md.kind field).operators ∨ (op = .custom ∧ (md.customFilter? field).isSome)

structure FilterCriterion.Whitelisted (md : Metadata) (c : FilterCriterion) : Prop where
  field : c.field ∈ md.model.filterable
  vocabulary : c.operator.name ∈ Operator.all.map Operator.name
  offered : md.Offers c.field c.operator
  valueType : c.valueType = (md.kind c.field).name

structure SearchSpec.Whitelisted (md : Metadata) (s : SearchSpec) : Prop where
  term_ne : s.term ≠ ""
  term_trimmed : trim s.term = s.term
  fields_ne : s.fields ≠ []
  fields : ∀ name ∈ s.fields, name ∈ md.model.searchable

structure Specification.Whitelisted (md : Metadata) (spec : Specification) : Prop where
  filters : ∀ c ∈ spec.filters, c.Whitelisted md
  sort : ∀ s ∈ spec.sort, s.field ∈ md.model.sortable ∧ s.direction.name ∈ ["asc", "desc"]
  /-- No field is sorted by twice. -/
  sort_nodup : (spec.sort.map (·.field)).Nodup
  search : ∀ s, spec.search = some s → s.Whitelisted md

/-! ## Filters -/

theorem offers_of_supports {md : Metadata} {field : String} {op : Operator}
    (h : md.supports field op = true) : md.Offers field op := by
  by_cases hop : op = .custom
  · subst hop
    exact .inr ⟨rfl, h⟩
  · refine .inl ?_
    cases op <;> first | exact absurd rfl hop | exact List.contains_iff_mem.1 h

theorem refuse_ne_ok {α : Type} {field : String} {reason : Reason} {rejected : Value} {a : α} :
    refuse field reason rejected ≠ .ok a := by
  simp [refuse]

theorem checkFilter_whitelisted {md : Metadata} {draft : DraftFilter} {c : FilterCriterion}
    (h : md.checkFilter draft = .ok c) : c.Whitelisted md := by
  unfold Metadata.checkFilter at h
  by_cases hfield : md.isFilterable draft.field
  · simp only [hfield, Bool.not_true, Bool.false_eq_true, if_false] at h
    cases hop : Operator.ofName? draft.operator with
    | none =>
      rw [hop] at h
      exact absurd h refuse_ne_ok
    | some op =>
      simp only [hop] at h
      by_cases hsup : md.supports draft.field op
      · simp only [hsup, Bool.not_true, Bool.false_eq_true, if_false] at h
        obtain ⟨value, -, rfl⟩ := map_eq_ok.1 h
        exact {
          field := List.contains_iff_mem.1 hfield
          vocabulary := List.mem_map_of_mem (Operator.mem_all op)
          offered := offers_of_supports hsup
          valueType := rfl }
      · simp only [hsup, Bool.not_false, if_true] at h
        exact absurd h refuse_ne_ok
  · simp only [hfield, Bool.not_false, if_true] at h
    exact absurd h refuse_ne_ok

/-! ## Order -/

theorem checkSort_sortable {v : Validator} {draft : DraftSort} {s : SortCriterion}
    (h : v.checkSort draft = .ok s) : s.field ∈ v.metadata.model.sortable := by
  unfold Validator.checkSort at h
  by_cases hfield : v.metadata.isSortable draft.field
  · simp only [hfield, Bool.not_true, Bool.false_eq_true, if_false] at h
    split at h
    · cases h
      exact List.contains_iff_mem.1 hfield
    · exact absurd h refuse_ne_ok
  · simp only [hfield, Bool.not_false, if_true] at h
    exact absurd h refuse_ne_ok

theorem mem_of_mem_firstOfEach {sort : List SortCriterion} {s : SortCriterion}
    (h : s ∈ Validator.firstOfEach sort) : s ∈ sort := by
  induction sort with
  | nil => exact h
  | cons t rest ih =>
    rcases List.mem_cons.1 h with rfl | h
    · exact List.mem_cons_self
    · exact List.mem_cons_of_mem _ (ih (List.mem_filter.1 h).1)

theorem nodup_fields_firstOfEach (sort : List SortCriterion) :
    ((Validator.firstOfEach sort).map (·.field)).Nodup := by
  induction sort with
  | nil => exact List.nodup_nil
  | cons s rest ih =>
    simp only [Validator.firstOfEach, List.map_cons, List.nodup_cons]
    constructor
    · -- what follows a criterion was kept because its field differs
      intro hmem
      obtain ⟨t, ht, hfield⟩ := List.mem_map.1 hmem
      have := (List.mem_filter.1 ht).2
      simp [hfield] at this
    · exact ih.sublist (List.filter_sublist.map _)

/-! ## Search -/

theorem mem_of_mem_firstNames {names : List String} {n : String}
    (h : n ∈ Validator.firstNames names) : n ∈ names := by
  induction names with
  | nil => exact h
  | cons m rest ih =>
    rcases List.mem_cons.1 h with rfl | h
    · exact List.mem_cons_self
    · exact List.mem_cons_of_mem _ (ih (List.mem_filter.1 h).1)

theorem checkSearch_whitelisted {v : Validator} {draft : DraftSearch} {s : SearchSpec}
    (h : (v.checkSearch draft).accepted = some s) : s.Whitelisted v.metadata := by
  unfold Validator.checkSearch at h
  simp only at h
  by_cases hterm : String.ofList draft.term.trimmedOrEmpty = ""
  · simp [hterm] at h
  · rw [if_neg hterm] at h
    have htrim : trim (String.ofList draft.term.trimmedOrEmpty)
        = String.ofList draft.term.trimmedOrEmpty := by
      rw [trim, String.toList_ofList, trimChars_trimmedOrEmpty]
    by_cases hall : draft.fields.isEmpty
    · simp only [hall, if_true] at h
      split at h
      · cases h
      · rename_i hne
        cases h
        exact ⟨hterm, htrim, fun hnil => hne (List.isEmpty_iff.2 hnil), fun _ hn => hn⟩
    · simp only [hall, Bool.false_eq_true, if_false] at h
      split at h
      · cases h
      · rename_i hne
        cases h
        refine ⟨hterm, htrim, fun hnil => hne (List.isEmpty_iff.2 hnil), ?_⟩
        intro name hname
        have := (List.mem_filter.1 (mem_of_mem_firstNames hname)).2
        exact List.contains_iff_mem.1 this

/-! ## Specifications -/

theorem check_whitelisted {v : Validator} {draft : DraftQuery} {c : Checked Specification}
    (h : v.check draft = .ok c) : c.accepted.Whitelisted v.metadata := by
  unfold Validator.check at h
  obtain ⟨filters, hfilters, h⟩ := bind_eq_ok.1 h
  obtain ⟨sorts, hsorts, h⟩ := bind_eq_ok.1 h
  obtain ⟨pagination, -, h⟩ := bind_eq_ok.1 h
  rw [pure_eq_ok] at h
  subst h
  refine ⟨?_, ?_, nodup_fields_firstOfEach _, fun s hs => checkSearch_whitelisted hs⟩
  · intro f hf
    obtain ⟨d, -, hd⟩ := List.mem_map.1 (ok_mem_of_gather hfilters hf)
    exact checkFilter_whitelisted hd
  · intro s hs
    obtain ⟨d, -, hd⟩ := List.mem_map.1 (ok_mem_of_gather hsorts (mem_of_mem_firstOfEach hs))
    exact ⟨checkSort_sortable hd, by cases s.direction <;> simp [Direction.name]⟩

/-- A specification that a validator gives is the one that its checks accepted. -/
theorem accepted_of_validate {v : Validator} {draft : DraftQuery} {outcome : Outcome}
    {spec : Specification} (h : v.validate draft = .ok outcome) (hs : outcome.spec = some spec) :
    ∃ c, v.check draft = .ok c ∧ c.accepted = spec := by
  unfold Validator.validate at h
  obtain ⟨c, hc, h⟩ := bind_eq_ok.1 h
  rw [pure_eq_ok] at h
  subst h
  refine ⟨c, hc, ?_⟩
  simp only at hs
  split at hs
  · exact Option.some.inj hs
  · cases hs

/-- Whatever a request asks for, in strict mode or not, the specification that comes of it names
only fields that the model declares for that use, and only operators that the fields have. -/
theorem spec_whitelisted (v : Validator) (draft : DraftQuery) {outcome : Outcome}
    {spec : Specification} (h : v.validate draft = .ok outcome) (hs : outcome.spec = some spec) :
    spec.Whitelisted v.metadata := by
  obtain ⟨c, hc, rfl⟩ := accepted_of_validate h hs
  exact check_whitelisted hc

/-- A lenient validator of films, which drops what it does not know. -/
def lenientFilms : Validator :=
  .ofMetadata ⟨Catalog.movies, 20, 100⟩ none false none 0

/-- Of two filters, three criteria and three search fields, one each is hidden or repeated. -/
def curiousDraft : DraftQuery where
  grammar := .simple
  filters := [⟨"internal_notes", "contains", .text "x"⟩, ⟨"rating", "between",
    .list [.text "9", .text "7.5"]⟩]
  sort := [⟨"genre", .text " DESC "⟩, ⟨"synopsis", .text "asc"⟩, ⟨"genre", .text "asc"⟩]
  search := { term := .text " noir ", fields := ["title", "internal_notes", "title"] }

theorem curiousDraft_whitelisted :
    ∃ outcome spec, lenientFilms.validate curiousDraft = .ok outcome ∧
      outcome.spec = some spec ∧ outcome.dropped.length = 3 ∧
      (spec.filters.map (·.field), spec.sort, spec.search) =
        (["rating"], [⟨"genre", .desc⟩], some ⟨"noir", ["title"]⟩) ∧
      spec.Whitelisted lenientFilms.metadata :=
  ⟨_, _, rfl, rfl, rfl, rfl, spec_whitelisted lenientFilms curiousDraft rfl rfl⟩

end RecordQuery
