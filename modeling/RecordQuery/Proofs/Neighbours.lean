import RecordQuery.Proofs.PageCounts

/-!
# Links to neighbours

The links of an answer lead to pages. A page starts at a multiple of its size, and a window may
start anywhere: its own link leads to the page that its first row lies on. So the links of a window
lead to the rows around it only if it is a page, though the answer says of every window with rows
before it that there is a page before it.

* `Envelope.LeadsAround`: the links lead to the slices that meet at two rows.
* `Envelope.Adjacent`: they lead to the slice itself and to its neighbours, and to no others.
* `Executor.execute_neighboured`: so they do if and only if the size of the slice divides its first
  row; in any case they lead around the page of its first row.
-/

namespace RecordQuery

open RecordQuery.Store RecordQuery.Number RecordQuery.Calendar

/-! ## Pages that meet at a row -/

namespace Envelope

variable {e : Envelope} {first size : Nat}

/-- The links lead to pages that meet at two rows: the one to the slice itself and the one before it
at `start`, and the one after it at `stop`. -/
structure LeadsAround (e : Envelope) (links : Entries) (start stop : Nat) : Prop where
  self : ∃ link page, links.get? "self" = some link ∧ e.LeadsTo link page ∧
    page.window.startRow = start
  next : ∀ link, links.get? "next" = some link →
    ∃ page, e.LeadsTo link page ∧ page.window.startRow = stop
  prev : ∀ link, links.get? "prev" = some link →
    ∃ page, e.LeadsTo link page ∧ page.window.endRow = start

/-- The links lead to the slice and to its neighbours, where the answer says that there are some. -/
structure Adjacent (e : Envelope) (block links : Entries) : Prop where
  around : e.LeadsAround links e.pagination.firstRow (e.pagination.firstRow + e.records.length)
  next_iff : links.get? "next" ≠ none ↔ block.get? "hasNextPage" = some (.bool true)
  prev_iff : links.get? "prev" ≠ none ↔ block.get? "hasPreviousPage" = some (.bool true)

/-- A link to the page that has so many pages before it. -/
theorem leadsTo_succ (e : Envelope) (k : Nat) (hsize : 1 ≤ size) (hk : k < 2 ^ 64)
    (hle : size ≤ 2 ^ 64) :
    ∃ page, e.LeadsTo (e.pageLink (k + 1) size) page ∧
      page.window.startRow = k * size ∧ page.window.endRow = (k + 1) * size :=
  ⟨⟨k + 1, size, Nat.le_add_left 1 k, hsize⟩, e.leadsTo_pageLink _ hsize hk hle, rfl, rfl⟩

/-- The slice is on the page of its first row. -/
theorem page_of_numbered (hnumbered : e.pagination.isCursor = false)
    (hlimit : e.pagination.limit = size) (hsize : 0 < size) :
    e.page =
      .ok ⟨some ((e.pagination.firstRow / size : Nat) + 1), size, e.pagination.firstRow⟩ := by
  cases hpagination : e.pagination with
  | cursor c =>
    rw [hpagination] at hnumbered
    cases hnumbered
  | window w =>
    rw [hpagination] at hlimit
    have hne : (size : Int) ≠ 0 := by omega
    unfold page
    simp only [hpagination, hlimit, if_neg hne, Pagination.firstRow]
    rw [Int.fdiv_eq_ediv_of_nonneg _ (Int.natCast_nonneg size), Int.natCast_ediv]
  | offset page =>
    rw [hpagination] at hlimit
    obtain rfl : page.pageSize = size := Int.natCast_inj.1 hlimit
    have hnumber : page.window.startRow / page.pageSize + 1 = page.page := by
      rw [OffsetPage.window, Nat.mul_div_cancel _ hsize]
      exact Nat.sub_add_cancel page.page_pos
    have hfirst : (Pagination.offset page).firstRow = page.window.startRow := rfl
    have hcast : ((page.window.startRow / page.pageSize : Nat) : Int) + 1 = page.page := by
      exact_mod_cast hnumber
    rw [page_of_offset hpagination, hfirst, hcast]

/-- The links lead around the page of the first row. -/
theorem leadsAround_of_linked {pages : Option Int} {links : Entries} (hsize : 1 ≤ size)
    (hle : size ≤ 2 ^ 63) (hfirst : first < 2 ^ 63)
    (h : e.Linked ((first / size : Nat) + 1) size pages links) :
    e.LeadsAround links (first / size * size) ((first / size + 1) * size) := by
  have hquotient : first / size ≤ first := Nat.div_le_self first size
  generalize first / size = k at h hquotient
  constructor
  · obtain ⟨page, hpage, hstart, -⟩ := leadsTo_succ e k hsize (by omega) (by omega)
    exact ⟨_, page, h.self, hpage, hstart⟩
  · intro link hlink
    rw [h.next] at hlink
    split at hlink
    · cases hlink
      obtain ⟨page, hpage, hstart, -⟩ := leadsTo_succ e (k + 1) hsize (by omega) (by omega)
      exact ⟨page, hpage, hstart⟩
    · cases hlink
  · intro link hlink
    rw [h.prev] at hlink
    split at hlink
    · rename_i hbefore
      obtain ⟨j, rfl⟩ : ∃ j, k = j + 1 := Nat.exists_eq_add_of_le' (by omega)
      cases hlink
      rw [add_sub_cancel_right]
      obtain ⟨page, hpage, -, hend⟩ := leadsTo_succ e j hsize (by omega) (by omega)
      exact ⟨page, hpage, hend⟩
    · cases hlink

/-- The links lead to one slice only, so they lead around it only if it is a page. -/
theorem LeadsAround.start_unique {links : Entries} {start stop start' stop' : Nat}
    (h : e.LeadsAround links start stop) (h' : e.LeadsAround links start' stop') :
    start = start' := by
  obtain ⟨link, page, hlink, hpage, rfl⟩ := h.self
  obtain ⟨link', page', hlink', hpage', rfl⟩ := h'.self
  obtain rfl : link = link' := Option.some.inj (hlink.symm.trans hlink')
  rw [hpage.unique hpage']

/-- Where the links of an answer lead, and which there are. They know only the page of the first
row, where the rest of the answer knows the row. -/
structure Neighboured (e : Envelope) (first size : Nat) (block links : Entries) : Prop where
  around : e.LeadsAround links (first / size * size) ((first / size + 1) * size)
  next_iff : links.get? "next" ≠ none ↔ block.get? "hasNextPage" = some (.bool true)
  prev_iff : links.get? "prev" ≠ none ↔ size ≤ first
  hasPreviousPage_iff : block.get? "hasPreviousPage" = some (.bool true) ↔ 0 < first
  adjacent_iff : e.Adjacent block links ↔ size ∣ first

section Neighboured

variable {pages : Option Int} {block links : Entries} (hsize : 1 ≤ size) (hle : size ≤ 2 ^ 63)
  (hlt : first < 2 ^ 63) (hdescribed : e.Described first pages block)
  (hlinked : e.Linked ((first / size : Nat) + 1) size pages links)

include hlinked

theorem prev_iff_of_linked (hsize : 1 ≤ size) : links.get? "prev" ≠ none ↔ size ≤ first := by
  have hquotient : 1 ≤ first / size ↔ size ≤ first := by
    rw [Nat.le_div_iff_mul_le hsize, Nat.one_mul]
  rw [hlinked.prev, ← hquotient]
  generalize first / size = k
  by_cases hbefore : 1 ≤ k
  · rw [if_pos (by omega)]
    simp [hbefore]
  · rw [if_neg (by omega)]
    simp [hbefore]

omit hlinked in
include hdescribed in
theorem hasPreviousPage_iff_of_described :
    block.get? "hasPreviousPage" = some (.bool true) ↔ 0 < first := by
  rw [hdescribed.hasPreviousPage, Option.some.injEq, Value.bool.injEq, decide_eq_true_iff]

include hdescribed

theorem next_iff_of_linked :
    links.get? "next" ≠ none ↔ block.get? "hasNextPage" = some (.bool true) := by
  rw [hlinked.next, hdescribed.hasNextPage]
  cases e.hasMore <;> simp

include hsize hle hlt

/-- A full slice meets the next one at its end. -/
theorem adjacent_of_dvd (hfirst : e.pagination.firstRow = first)
    (hfull : e.hasMore = some true → e.records.length = size) (hdvd : size ∣ first) :
    e.Adjacent block links := by
  have hprev := prev_iff_of_linked hlinked hsize
  have haround := leadsAround_of_linked hsize hle hlt hlinked
  rw [Nat.div_mul_cancel hdvd, Nat.succ_mul, Nat.div_mul_cancel hdvd] at haround
  refine ⟨?_, next_iff_of_linked hdescribed hlinked, ?_⟩
  · rw [hfirst]
    refine ⟨haround.self, ?_, haround.prev⟩
    intro link hlink
    have hmore : e.hasMore = some true := by
      by_contra hnone
      rw [hlinked.next, if_neg hnone] at hlink
      cases hlink
    rw [hfull hmore]
    exact haround.next link hlink
  · rw [hprev, hasPreviousPage_iff_of_described hdescribed]
    exact ⟨fun h => by omega, fun hpos => Nat.le_of_dvd hpos hdvd⟩

theorem neighboured_of_linked (hfirst : e.pagination.firstRow = first)
    (hfull : e.hasMore = some true → e.records.length = size) :
    e.Neighboured first size block links where
  around := leadsAround_of_linked hsize hle hlt hlinked
  next_iff := next_iff_of_linked hdescribed hlinked
  prev_iff := prev_iff_of_linked hlinked hsize
  hasPreviousPage_iff := hasPreviousPage_iff_of_described hdescribed
  adjacent_iff := by
    refine ⟨fun h => ?_, adjacent_of_dvd hsize hle hlt hdescribed hlinked hfirst hfull⟩
    have hstart := h.around.start_unique (leadsAround_of_linked hsize hle hlt hlinked)
    rw [hfirst] at hstart
    exact Dvd.intro_left _ hstart.symm

end Neighboured

end Envelope

/-! ## Answers -/

namespace Executor

variable {x : Executor} {t : Table} {req : ExecutionRequest}

/-- The answer to a page or window has links. They lead around the page of its first row, and so to
its neighbours if and only if its size divides its first row, as that of every page does. -/
theorem execute_neighboured (hcolumns : t.columns = x.metadata.model.columns) (hsound : t.Sound)
    (hnumbered : req.spec.pagination.isCursor = false) {size : Nat}
    (hlimit : req.spec.pagination.limit = size) (hsize : 1 ≤ size) {now : DateTime} {e : Envelope}
    (he : (x.execute t.run req now).result = .ok e) :
    ((∀ n, e.totalCount = some n → n ≤ greatestInteger) →
      ∃ block links, e.pageEntries = .ok block ∧ e.links = .ok links) ∧
    ∀ block links, e.pageEntries = .ok block → e.links = .ok links →
      e.Neighboured req.spec.pagination.firstRow size block links := by
  have hpagination := (asked_of_execute he).1
  have hexact := execute_exact hcolumns hsound (by omega) he
  obtain ⟨-, hlt, hle⟩ := ready_of_execute he (by omega)
  rw [hlimit] at hle
  have hfull : e.hasMore = some true → e.records.length = size := by
    rw [hexact.hasMore_eq hnumbered, hexact.length_records hnumbered, hlimit, Option.some.injEq,
      decide_eq_true_iff]
    omega
  rw [← hpagination] at hlimit hlt hnumbered ⊢
  have hbound : (2 : Int) ^ 63 = greatestInteger + 1 := by decide
  constructor
  · intro hcounted
    have htotal : ∀ n, e.totalCount = some n → 0 ≤ n ∧ n ≤ greatestInteger := by
      intro n hn
      refine ⟨?_, hcounted n hn⟩
      rw [hexact.total n hn]
      exact Int.natCast_nonneg _
    have hpos : 0 < e.pagination.limit := by omega
    obtain ⟨block, hblock⟩ := Envelope.pageEntries_ok hpos htotal
    obtain ⟨links, hlinks⟩ := Envelope.links_ok hpos htotal
    exact ⟨block, links, hblock, hlinks⟩
  · intro block links hblock hlinks
    have hpage := Envelope.page_of_numbered hnumbered hlimit hsize
    rw [Envelope.links_eq_pageLinks hnumbered hpage rfl] at hlinks
    obtain ⟨pages, hpages, -⟩ := bind_eq_ok.1 hlinks
    obtain ⟨block', hblock', hdescribed⟩ := Envelope.described_pageEntries hnumbered hpage hpages
    obtain ⟨links', hlinks', hlinked⟩ := Envelope.linked_pageLinks
      ((e.pagination.firstRow / size : Nat) + 1) hpages
    obtain rfl : block = block' := Except.ok.inj (hblock.symm.trans hblock')
    obtain rfl : links = links' := Except.ok.inj (hlinks.symm.trans hlinks')
    exact Envelope.neighboured_of_linked hsize (by omega) (by omega) hdescribed hlinked rfl hfull

/-- The two quotes after the first one, as a window. -/
def windowOfQuotes : ExecutionRequest where
  spec.pagination := .window { startRow := 1, endRow := 3 }

open Listing in
/-- The answer says that rows come before the window, but it has no link to them, and its links do
not lead to the window and its neighbours. -/
theorem windowOfQuotes_apart :
    ∃ e block links,
      (quoteListing.executor.execute quotesBefore.run windowOfQuotes { date := default }).result
        = .ok e ∧ e.pageEntries = .ok block ∧ e.links = .ok links ∧
      block.get? "hasPreviousPage" = some (.bool true) ∧ links.get? "prev" = none ∧
      ¬ e.Adjacent block links := by
  have hsound : quotesBefore.Sound := by decide +kernel
  have hready : quoteListing.executor.Ready quotesBefore windowOfQuotes :=
    ⟨⟨_, rfl, rfl⟩, by decide +kernel⟩
  obtain ⟨e, he, -⟩ := execute_numbered rfl hsound hready
    (.window { startRow := 1, endRow := 3 }) rfl (by decide) (by decide) (by decide)
    (readsSlice_of_rows (by decide +kernel) _) { date := default }
  have hexact : quoteListing.executor.Exact quotesBefore windowOfQuotes e :=
    execute_exact rfl hsound (by decide) he
  have htotal : ∀ n, e.totalCount = some n → n ≤ greatestInteger := by
    intro n hn
    rw [hexact.total n hn]
    decide
  have hnumbered : windowOfQuotes.spec.pagination.isCursor = false := rfl
  have hlimit : windowOfQuotes.spec.pagination.limit = (2 : Nat) := rfl
  obtain ⟨hanswered, hlinks⟩ :=
    execute_neighboured rfl hsound hnumbered hlimit (by decide) he
  obtain ⟨block, links, hblock, hlinked⟩ := hanswered htotal
  have h := hlinks block links hblock hlinked
  refine ⟨e, block, links, he, hblock, hlinked, h.hasPreviousPage_iff.2 (by decide), ?_, ?_⟩
  · by_contra hprev
    exact absurd (h.prev_iff.1 hprev) (by decide)
  · rw [h.adjacent_iff]
    decide

end Executor

end RecordQuery
