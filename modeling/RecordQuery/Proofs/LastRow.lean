import RecordQuery.Proofs.Bounds
import RecordQuery.Proofs.Slices

/-!
# The last row of a grid

A grid is told the number of all rows as its last row, or nothing as long as there may be more of
them. No total is asked for, so the number has to follow from the slice.

* `Executor.EndsUnseen`: the slices that do not tell where the rows end.
* `Executor.totalCount_eq_none_iff`: no number follows if rows follow, or the end is not seen.
* `Listing.lastRow_truthful_iff`: when a grid is told the truth about its last row.
* `Listing.quotesBehind_untruthful`: behind the last page it is not.
-/

namespace RecordQuery

open RecordQuery.Store RecordQuery.Calendar

/-- A page starts after the first row if it is not the first one. -/
theorem OffsetPage.firstRow_ne_zero_iff (page : OffsetPage) :
    (Pagination.offset page).firstRow ≠ 0 ↔ page.page ≠ 1 := by
  have hpage := page.page_pos
  have hsize := page.size_pos
  rw [Pagination.firstRow, Nat.mul_ne_zero_iff]
  omega

/-- A page of which the rows tell the total has one, unless rows follow or it has none itself. -/
theorem Batch.knownTotal_of_page {b : Batch} (hnone : b.total = none) (offset : Nat) :
    b.knownTotal offset = none ↔ b.hasMore = true ∨ (offset ≠ 0 ∧ b.rows = []) := by
  simp only [knownTotal, hnone]
  cases hmore : b.hasMore with
  | true => simp
  | false =>
    cases hrows : b.rows with
    | nil => simp
    | cons row rows => simp

namespace Executor

variable {x : Executor} {t : Table} {req : ExecutionRequest}

/-- The matching rows that follow those of the slice. -/
def following (x : Executor) (t : Table) (req : ExecutionRequest) : List Row :=
  (x.remaining t req).drop req.spec.pagination.limit.toNat

/-- The slice does not tell where the rows end: it follows a cursor, so that it is not known how
many rows are before it, or it is a later page without rows. A window without rows is counted. -/
def EndsUnseen (x : Executor) (t : Table) (req : ExecutionRequest) : Prop :=
  match req.spec.pagination with
  | .cursor _ => True
  | .offset page => page.page ≠ 1 ∧ x.remaining t req = []
  | .window _ => False

/-- If no total is asked for, an envelope has none just if rows follow or the end is not seen. -/
theorem totalCount_eq_none_iff (hcolumns : t.columns = x.metadata.model.columns) (hsound : t.Sound)
    (hneeded : req.needsTotal = false) (hlimit : 1 ≤ req.spec.pagination.limit) {now : DateTime}
    {e : Envelope} (h : (x.execute t.run req now).result = .ok e) :
    e.totalCount = none ↔ x.following t req ≠ [] ∨ x.EndsUnseen t req := by
  obtain ⟨size, hsize⟩ := Int.eq_ofNat_of_zero_le (show 0 ≤ req.spec.pagination.limit by omega)
  obtain ⟨b, total, hrows, hmore, hasked, henvelope, hcounted, hknown⟩ :=
    batch_of_execute hcolumns hsound h hsize
  obtain ⟨-, -, htotal⟩ := envelope_eq_ok henvelope
  have hfollowing : b.hasMore = true ↔ x.following t req ≠ [] := by
    rw [hmore, decide_eq_true_eq, following, hsize, Int.toNat_natCast, ne_eq, List.drop_eq_nil_iff,
      not_le]
  have hnone : b.total = none := by rw [hasked, hneeded, if_neg Bool.false_ne_true]
  rw [htotal, Option.map_eq_none_iff, ← hfollowing]
  -- what the total is known from depends on the kind of slice
  cases hslice : req.spec.pagination with
  | cursor page =>
    have hno : b.needsCount req.spec.pagination = false := by rw [hslice]; rfl
    have hunknown := hknown hno
    rw [hslice] at hunknown
    have hunseen : x.EndsUnseen t req := by simp only [EndsUnseen, hslice]
    simp [hunknown, Pagination.isCursor, hnone, hunseen]
  | window w =>
    have hseen : ¬ x.EndsUnseen t req := by simp only [EndsUnseen, hslice, not_false_eq_true]
    rw [total_eq_none_iff hasked hcounted hknown hslice hneeded]
    simp [hseen]
  | offset page =>
    have hno : b.needsCount req.spec.pagination = false := by rw [hslice]; rfl
    have hunknown := hknown hno
    rw [hslice] at hunknown
    have hempty : b.rows = [] ↔ x.remaining t req = [] := by
      have hpos : size ≠ 0 := by omega
      rw [hrows, List.take_eq_nil_iff]
      simp [hpos]
    simp only [hunknown, Pagination.isCursor, Bool.false_eq_true, if_false,
      Batch.knownTotal_of_page hnone, page.firstRow_ne_zero_iff, hempty, EndsUnseen, hslice]

end Executor

/-- What a grid is told of its last row is true: it is the number of all rows, or nothing while rows
follow those that are shown. -/
def Truthful (rows following : List Row) (lastRow : Value) : Prop :=
  (lastRow = .null ∧ following ≠ []) ∨ lastRow = .int rows.length

namespace Listing

variable {l : Listing} {t : Table} {req : ListingRequest} {execution : ExecutionRequest}

/-- Without a total that is asked for, a grid is told the truth about its last row if and only if
rows follow those that it is shown, or the slice tells where they end: as every window does, but no
slice after a cursor, and no later page without rows. -/
theorem lastRow_truthful_iff {md : Metadata} (hl : l.IsFor md) (hsized : l.validator.Sized)
    (hcolumns : t.columns = md.model.columns) (hsound : t.Sound)
    (hplan : l.plan req = .ok (.rowModel, execution)) (hneeded : execution.needsTotal = false)
    {now : DateTime} {body : Entries} (h : l.run t.run req now = .ok body) :
    ∃ lastRow, body.get? "lastRow" = some lastRow ∧
      (lastRow = .null ∨ lastRow = .int (l.executor.matching t execution).length) ∧
      (lastRow = .null ↔
        l.executor.following t execution ≠ [] ∨ l.executor.EndsUnseen t execution) ∧
      (Truthful (l.executor.matching t execution) (l.executor.following t execution) lastRow ↔
        l.executor.following t execution ≠ [] ∨ ¬ l.executor.EndsUnseen t execution) := by
  rw [← hl.executor] at hcolumns
  obtain ⟨e, he, hrender⟩ := (run_eq_ok hplan).1 h
  cases hrender
  have hlimit := (plan_within hsized hplan).limit.1
  have hexact := Executor.execute_exact hcolumns hsound (by omega) he
  have hnone := Executor.totalCount_eq_none_iff hcolumns hsound hneeded hlimit he
  refine ⟨Envelope.intOrNull e.totalCount, rfl, ?_⟩
  cases htotal : e.totalCount with
  | none =>
    have hunknown := hnone.1 htotal
    refine ⟨.inl rfl, iff_of_true rfl hunknown, ?_⟩
    simp only [Truthful, Envelope.intOrNull, Option.map_none, Option.getD_none, true_and,
      reduceCtorEq, or_false]
    tauto
  | some n =>
    have hn : n = (l.executor.matching t execution).length := hexact.total n htotal
    have hknown : ¬ (l.executor.following t execution ≠ [] ∨ l.executor.EndsUnseen t execution) :=
      fun hunknown => by rw [hnone.2 hunknown] at htotal; cases htotal
    subst hn
    refine ⟨.inr rfl, iff_of_false (fun hnull => by cases hnull) hknown, ?_⟩
    simp only [Truthful, Envelope.intOrNull, Option.map_some, Option.getD_some, or_true, true_iff]
    tauto

/-- A request of a grid for quotes, in a slice of its own. -/
def gridOfQuotes (slice : Params) : ListingRequest where
  params := ("format", .text "row-model") :: slice

/-- What such a request comes to. -/
def executionOfGrid (pagination : Pagination) : ExecutionRequest where
  spec := { pagination }

/-- Behind the last of three quotes, a window tells their number, but a page does not. -/
theorem quotesBehind_untruthful :
    (∃ body, quoteListing.run quotesBefore.run
        (gridOfQuotes [("startRow", .text "4"), ("endRow", .text "6")]) { date := default }
        = .ok body ∧ body.get? "lastRow" = some (.int 3)) ∧
      ∃ body, quoteListing.run quotesBefore.run
        (gridOfQuotes [("page", .text "3"), ("pageSize", .text "2")]) { date := default }
        = .ok body ∧ body.get? "lastRow" = some .null := by
  have hl : quoteListing.IsFor ⟨Catalog.movieQuotes, 20, 100⟩ := ⟨rfl, rfl⟩
  have hsized : quoteListing.validator.Sized := ⟨by decide, by decide⟩
  have hsound : quotesBefore.Sound := by decide +kernel
  have hsorts : ∀ s ∈ (⟨Catalog.movieQuotes, 20, 100⟩ : Metadata).effectiveSort [],
      Catalog.movieQuotes.hasColumn s.field = true := by decide +kernel
  have hwindow : quoteListing.plan (gridOfQuotes [("startRow", .text "4"), ("endRow", .text "6")])
      = .ok (.rowModel, executionOfGrid (.window { startRow := 4, endRow := 6 })) := by
    with_unfolding_all rfl
  have hpage : quoteListing.plan (gridOfQuotes [("page", .text "3"), ("pageSize", .text "2")])
      = .ok (.rowModel, executionOfGrid (.offset { page := 3, pageSize := 2 })) := by
    with_unfolding_all rfl
  -- both slices start behind the last quote
  have hbehind (pagination : Pagination) (hnumbered : pagination.isCursor = false)
      (hfirst : pagination.firstRow = 4) :
      quoteListing.executor.remaining quotesBefore (executionOfGrid pagination) = [] := by
    have hmatching : (quoteListing.executor.matching quotesBefore
      (executionOfGrid pagination)).length = 3 := rfl
    have hstart : (executionOfGrid pagination).spec.pagination.firstRow = 4 := hfirst
    rw [Executor.remaining_of_not_isCursor hnumbered, List.drop_eq_nil_iff,
      (Executor.ordered_perm _ _ _).length_eq, hmatching, hstart]
    decide
  have hanswered {slice : Params} {pagination : Pagination}
      (hplan : quoteListing.plan (gridOfQuotes slice) = .ok (.rowModel, executionOfGrid pagination))
      (hnumbered : pagination.isCursor = false) (hlimit : pagination.limit = 2)
      (hfirst : pagination.firstRow = 4) :
      ∃ body, quoteListing.run quotesBefore.run (gridOfQuotes slice) { date := default }
        = .ok body := by
    have hready : quoteListing.executor.Ready quotesBefore (executionOfGrid pagination) :=
      ⟨⟨_, rfl, rfl⟩, hsorts⟩
    obtain ⟨e, he, -⟩ := Executor.execute_numbered rfl hsound hready pagination hnumbered
      (by omega) (by rw [hfirst]; decide) (by rw [hlimit]; decide)
      (Executor.readsSlice_of_rows (by decide +kernel) _) { date := default }
    exact ⟨_, (run_eq_ok hplan).2 ⟨e, he, rfl⟩⟩
  constructor
  · obtain ⟨body, hrun⟩ := hanswered hwindow rfl rfl rfl
    obtain ⟨lastRow, hlast, hvalue, hnull, -⟩ :=
      lastRow_truthful_iff hl hsized rfl hsound hwindow rfl hrun
    refine ⟨body, hrun, ?_⟩
    rcases hvalue with rfl | rfl
    · rcases hnull.1 rfl with hfollows | hunseen
      · rw [Executor.following, hbehind _ rfl rfl, List.drop_nil] at hfollows
        exact absurd rfl hfollows
      · exact hunseen.elim
    · exact hlast
  · obtain ⟨body, hrun⟩ := hanswered hpage rfl rfl rfl
    obtain ⟨lastRow, hlast, -, hnull, -⟩ :=
      lastRow_truthful_iff hl hsized rfl hsound hpage rfl hrun
    have hunseen : quoteListing.executor.EndsUnseen quotesBefore
        (executionOfGrid (.offset { page := 3, pageSize := 2 })) :=
      ⟨by decide, hbehind _ rfl rfl⟩
    exact ⟨body, hrun, hnull.2 (.inr hunseen) ▸ hlast⟩

end Listing
end RecordQuery
