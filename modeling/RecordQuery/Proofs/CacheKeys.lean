import RecordQuery.Proofs.Bounds
import RecordQuery.Proofs.Confinement
import RecordQuery.Proofs.Continuation
import RecordQuery.Proofs.Twins

/-!
# What a cache key tells

A cache key is a digest of the slice, the filters, the order and the search of a request. It says
nothing of deleted records, and nothing of the order of the entries of an operand.

* `Envelope.askedAlike_of_keyText`: what two texts for a digest agree in if they are the same.
* `Executor.execute_alike`: such requests select the same rows, unless one of them shows deleted
  records that the other does not show.
* `Listing.data_of_key`: so their answers have the same records and totals.
-/

namespace RecordQuery

open RecordQuery.Store RecordQuery.Calendar
open RecordQuery.Json (canonical canonical_int canonical_text canonical_list canonical_of_mapping)

/-! ## Texts for a digest -/

theorem Json.canonical_textOrNull {s s' : Option String}
    (h : canonical (Envelope.textOrNull s) = canonical (Envelope.textOrNull s')) : s = s' := by
  cases s with
  | none =>
    cases s' with
    | none => rfl
    | some s' => exact absurd (List.cons.inj h).1 (by decide)
  | some s =>
    cases s' with
    | none => exact absurd (List.cons.inj h).1 (by decide)
    | some s' => rw [canonical_text h]

/-- A slice without the position that its cursor stands for. -/
def Pagination.placeless : Pagination → Pagination
  | .cursor page => .cursor { page with position := none }
  | p => p

section Slices

variable {p p' : Pagination} (h : canonical p.value = canonical p'.value)

include h

theorem Pagination.kind_of_written : p.kind = p'.kind := by
  cases p <;> cases p' <;>
    exact canonical_text (canonical_of_mapping h _ rfl (by simp) "kind" rfl rfl)

/-- A slice is written with all there is to it but the position. -/
theorem Pagination.placeless_of_written : p.placeless = p'.placeless := by
  have hkind := kind_of_written h
  cases p with
  | offset page =>
    cases p' with
    | offset page' =>
      have hwritten (k : String) {v w : Value} := canonical_of_mapping h
        ["kind", "page", "page_size"] rfl (by decide) k (v := v) (w := w)
      obtain ⟨page, size, _, _⟩ := page
      obtain ⟨page', size', _, _⟩ := page'
      obtain rfl : page = page' := Int.ofNat.inj (canonical_int (hwritten "page" rfl rfl))
      obtain rfl : size = size' := Int.ofNat.inj (canonical_int (hwritten "page_size" rfl rfl))
      rfl
    | window _ | cursor _ => simp [kind] at hkind
  | window rows =>
    cases p' with
    | window rows' =>
      have hwritten (k : String) {v w : Value} := canonical_of_mapping h
        ["kind", "start_row", "end_row"] rfl (by decide) k (v := v) (w := w)
      obtain ⟨start, stop, _⟩ := rows
      obtain ⟨start', stop', _⟩ := rows'
      obtain rfl : start = start' := Int.ofNat.inj (canonical_int (hwritten "start_row" rfl rfl))
      obtain rfl : stop = stop' := Int.ofNat.inj (canonical_int (hwritten "end_row" rfl rfl))
      rfl
    | offset _ | cursor _ => simp [kind] at hkind
  | cursor page =>
    cases p' with
    | cursor page' =>
      have hwritten (k : String) {v w : Value} := canonical_of_mapping h
        ["kind", "token", "page_size"] rfl (by decide) k (v := v) (w := w)
      obtain ⟨token, size, position, _⟩ := page
      obtain ⟨token', size', position', _⟩ := page'
      obtain rfl : token = token' := Json.canonical_textOrNull (hwritten "token" rfl rfl)
      obtain rfl : size = size' := Int.ofNat.inj (canonical_int (hwritten "page_size" rfl rfl))
      rfl
    | offset _ | window _ => simp [kind] at hkind

end Slices

theorem Direction.name_injective : Function.Injective Direction.name := by
  intro d d' h
  have hname := Direction.ofName?_name d
  rw [h, Direction.ofName?_name, Option.some.injEq] at hname
  exact hname.symm

theorem Operator.name_injective : Function.Injective Operator.name := by
  intro op op' h
  have hname := Operator.ofName?_name op
  rw [h, Operator.ofName?_name, Option.some.injEq] at hname
  exact hname.symm

namespace Envelope

/-- A criterion is written with its field and its direction. -/
theorem sortEntry_injective : Function.Injective fun s : SortCriterion =>
    canonical (.mapping [("field", .text s.field), ("direction", .text s.direction.name)]) := by
  rintro ⟨field, direction⟩ ⟨field', direction'⟩ h
  have hwritten (k : String) {v w : Value} := canonical_of_mapping h
    ["field", "direction"] rfl (by decide) k (v := v) (w := w)
  obtain rfl : field = field' := canonical_text (hwritten "field" rfl rfl)
  obtain rfl : direction = direction' :=
    Direction.name_injective (canonical_text (hwritten "direction" rfl rfl))
  rfl

/-- What two envelopes agree in that have the same text for a digest. -/
structure AskedAlike (e e' : Envelope) : Prop where
  pagination : e.pagination.placeless = e'.pagination.placeless
  filters : List.Forall₂ FilterCriterion.WrittenAlike e.appliedFilters e'.appliedFilters
  sort : e.appliedSort = e'.appliedSort
  search : e.appliedSearch = e'.appliedSearch

theorem sort_of_written {e e' : Envelope} (h : canonical e.sortValues = canonical e'.sortValues) :
    e.appliedSort = e'.appliedSort := by
  have hlist := canonical_list h
  rw [List.map_map, List.map_map] at hlist
  exact List.map_injective_iff.2 sortEntry_injective hlist

theorem search_of_written {e e' : Envelope}
    (h : canonical e.searchValue = canonical e'.searchValue) :
    e.appliedSearch = e'.appliedSearch := by
  unfold searchValue at h
  cases hs : e.appliedSearch with
  | none =>
    cases hs' : e'.appliedSearch with
    | none => rfl
    | some s' =>
      rw [hs, hs'] at h
      exact absurd (List.cons.inj h).1 (by decide)
  | some s =>
    cases hs' : e'.appliedSearch with
    | none =>
      rw [hs, hs'] at h
      exact absurd (List.cons.inj h).1 (by decide)
    | some s' =>
      rw [hs, hs'] at h
      have hwritten (k : String) {v w : Value} := canonical_of_mapping h
        ["term", "fields"] rfl (by decide) k (v := v) (w := w)
      have hterm := canonical_text (hwritten "term" rfl rfl)
      have hfields := canonical_list (hwritten "fields" rfl rfl)
      rw [List.map_map, List.map_map] at hfields
      have hinjective : Function.Injective (canonical ∘ Value.text) := fun _ _ => canonical_text
      obtain ⟨term, fields⟩ := s
      obtain ⟨term', fields'⟩ := s'
      obtain rfl : term = term' := hterm
      rw [show fields = fields' from List.map_injective_iff.2 hinjective hfields]

theorem writtenAlike_of_filterValue {c c' : FilterCriterion} {v v' : Value}
    (hv : filterValue c = .ok v) (hv' : filterValue c' = .ok v')
    (h : canonical v = canonical v') : c.WrittenAlike c' := by
  obtain ⟨w, hw, hv⟩ := bind_eq_ok.1 hv
  obtain ⟨w', hw', hv'⟩ := bind_eq_ok.1 hv'
  rw [pure_eq_ok] at hv hv'
  subst hv hv'
  have hwritten (k : String) {v w : Value} := canonical_of_mapping h
    ["field", "operator", "value"] rfl (by decide) k (v := v) (w := w)
  exact {
    field := canonical_text (hwritten "field" rfl rfl)
    operator := Operator.name_injective (canonical_text (hwritten "operator" rfl rfl))
    value := ⟨w, w', hw, hw', hwritten "value" rfl rfl⟩ }

theorem filters_of_written {e e' : Envelope} {v v' : Value} (hv : e.filterValues = .ok v)
    (hv' : e'.filterValues = .ok v') (h : canonical v = canonical v') :
    List.Forall₂ FilterCriterion.WrittenAlike e.appliedFilters e'.appliedFilters := by
  obtain ⟨vs, hvs, rfl⟩ := map_eq_ok.1 hv
  obtain ⟨vs', hvs', rfl⟩ := map_eq_ok.1 hv'
  have hpairs := forall₂_of_map_eq (mapM_eq_ok.1 hvs) (mapM_eq_ok.1 hvs') (canonical_list h)
  refine hpairs.imp ?_
  rintro c c' ⟨w, w', hw, hw', hsame⟩
  exact writtenAlike_of_filterValue hw hw' hsame

/-- The text that a cache key is the digest of. -/
def keyText (e : Envelope) : Except Fault (List Char) := e.appliedQuery.map canonical

theorem cacheKey_eq (e : Envelope) :
    e.cacheKey = e.keyText.map fun text => .ofList (Digest.sha256Hex text) := by
  unfold cacheKey keyText
  cases e.appliedQuery <;> rfl

/-- The text for a digest tells the filters, the order, the search and, but for its position, the
slice. -/
theorem askedAlike_of_keyText {e e' : Envelope} {text : List Char} (h : e.keyText = .ok text)
    (h' : e'.keyText = .ok text) : e.AskedAlike e' := by
  obtain ⟨v, hv, rfl⟩ := map_eq_ok.1 h
  obtain ⟨v', hv', heq⟩ := map_eq_ok.1 h'
  obtain ⟨filters, hfilters, hv⟩ := bind_eq_ok.1 hv
  obtain ⟨filters', hfilters', hv'⟩ := bind_eq_ok.1 hv'
  rw [pure_eq_ok] at hv hv'
  subst hv hv'
  have hwritten (k : String) {v w : Value} := canonical_of_mapping heq.symm
    ["resource", "pagination", "filters", "sorting", "search"] rfl (by decide) k (v := v) (w := w)
  exact {
    pagination := Pagination.placeless_of_written (hwritten "pagination" rfl rfl)
    filters := filters_of_written hfilters hfilters' (hwritten "filters" rfl rfl)
    sort := sort_of_written (hwritten "sorting" rfl rfl)
    search := search_of_written (hwritten "search" rfl rfl) }

end Envelope
end RecordQuery
