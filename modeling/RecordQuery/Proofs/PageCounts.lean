import RecordQuery.Proofs.Beyond
import RecordQuery.Proofs.PageLinks
import RecordQuery.Proofs.PlacesKept

/-!
# Counts of pages

The number of pages is found by rounding a quotient to a double and then up to an integer. The
first step cannot take the quotient across an integer: quotients by a number `size` are at least
`1 / size` apart, and those of numbers below `2^53` are moved by less than that. So the number of
pages agrees with what the store says of further rows, which is found without a division.

* `Binary64.ceil_quotient`: the rounded quotient has the ceiling of the exact one.
* `Envelope.Paged`: what an envelope, its block and its links say of the pages of all rows.
* `Executor.execute_paged`: every envelope of a page says so, if its total is below `2^53`.
-/

namespace RecordQuery

open RecordQuery.Store RecordQuery.Number RecordQuery.Calendar

/-! ## Ceilings of rounded quotients -/

namespace Number.Binary64

theorem ceil?_finite (m : Nat) (e : Int) :
    ceil? (.finite false m e) = some ⌈magnitude m e⌉ := by
  obtain ⟨hden, hratio⟩ := ratio_eq m e
  simp only [ceil?, ← hratio, Option.some.injEq]
  generalize (ratio m e).1 = num, (ratio m e).2 = den at hden
  have hpos : (0 : ℚ) < den := by exact_mod_cast hden
  have hlow : (num + den - 1) / den * den ≤ num + den - 1 := Nat.div_mul_le_self _ _
  have hhigh : num + den - 1 < ((num + den - 1) / den + 1) * den := by
    rw [Nat.mul_comm]
    exact Nat.lt_mul_div_succ _ hden
  generalize (num + den - 1) / den = k at hlow hhigh
  rw [eq_comm, if_neg Bool.false_ne_true, Int.ceil_eq_iff, Int.cast_natCast]
  constructor
  · rw [lt_div_iff₀ hpos]
    have : k * den < num + den := by omega
    have : (k : ℚ) * den < num + den := by exact_mod_cast this
    linarith
  · rw [div_le_iff₀ hpos]
    have : num ≤ k * den := by
      rw [Nat.succ_mul] at hhigh
      omega
    exact_mod_cast this

/-- An integer with at most 53 binary digits is a double. -/
theorem exists_normal {k : Nat} (hpos : 0 < k) (hlt : k < 2 ^ 53) :
    ∃ m e, Normal m e ∧ 0 < m ∧ magnitude m e = k := by
  have hself : 2 ^ k.log2 ≤ k := Nat.log2_self_le (by omega)
  have hnext : k < 2 ^ (k.log2 + 1) := Nat.lt_log2_self
  have hlog : k.log2 ≤ 52 := by
    have : 2 ^ k.log2 < 2 ^ 53 := Nat.lt_of_le_of_lt hself hlt
    have := (Nat.pow_lt_pow_iff_right (by decide : 1 < 2)).1 this
    omega
  have hlower : 2 ^ 52 ≤ k * 2 ^ (52 - k.log2) := by
    calc 2 ^ 52 = 2 ^ k.log2 * 2 ^ (52 - k.log2) := by
          rw [← pow_add]
          congr 1
          omega
      _ ≤ k * 2 ^ (52 - k.log2) := Nat.mul_le_mul_right _ hself
  have hupper : k * 2 ^ (52 - k.log2) < 2 ^ 53 := by
    calc k * 2 ^ (52 - k.log2) < 2 ^ (k.log2 + 1) * 2 ^ (52 - k.log2) := by gcongr
      _ = 2 ^ 53 := by
        rw [← pow_add]
        congr 1
        omega
  refine ⟨k * 2 ^ (52 - k.log2), -((52 - k.log2 : Nat) : Int), ⟨hupper, ?_, ?_, .inl hlower⟩,
    by positivity, ?_⟩
  · unfold leastExponent
    omega
  · unfold greatestExponent
    omega
  · rw [magnitude, zpow_neg, zpow_natCast]
    push_cast
    field_simp

variable {n size : Nat}

/-- A quotient is an integer, or it lies by more than its rounding between two of them. -/
theorem quotient_apart (hlt : n < 2 ^ 53) (hsize : 0 < size) :
    (∃ k : Nat, (n / size : ℚ) = k) ∨
      (⌈(n / size : ℚ)⌉ - 1 : ℚ) < n / size - n / size / 2 ^ 53 ∧
        (n / size + n / size / 2 ^ 53 : ℚ) ≤ ⌈(n / size : ℚ)⌉ := by
  have hpos : (0 : ℚ) < size := by exact_mod_cast hsize
  obtain ⟨k, r, hr, rfl⟩ : ∃ k r, r < size ∧ n = size * k + r :=
    ⟨n / size, n % size, Nat.mod_lt _ hsize, (Nat.div_add_mod n size).symm⟩
  have hq : ((size * k + r : Nat) / size : ℚ) = k + r / size := by
    push_cast
    rw [add_div, mul_div_cancel_left₀ _ hpos.ne']
  rcases Nat.eq_zero_or_pos r with rfl | hrest
  · left
    exact ⟨k, by rw [hq, Nat.cast_zero, zero_div, add_zero]⟩
  · right
    have hless : (((size * k + r : Nat) / size : ℚ)) / 2 ^ 53 < 1 / size := by
      have : ((size * k + r : Nat) : ℚ) < 2 ^ 53 := by exact_mod_cast hlt
      rw [div_right_comm]
      gcongr
      rwa [div_lt_one (by positivity)]
    have hlow : (1 / size : ℚ) ≤ r / size := by
      have : (1 : ℚ) ≤ r := by exact_mod_cast hrest
      gcongr
    have hhigh : (r / size + 1 / size : ℚ) ≤ 1 := by
      have : (r + 1 : ℚ) ≤ size := by exact_mod_cast hr
      rw [← add_div, div_le_one hpos]
      exact this
    have hgap : (0 : ℚ) < 1 / size := by positivity
    have hceil : ⌈((size * k + r : Nat) / size : ℚ)⌉ = k + 1 := by
      rw [hq, Int.ceil_eq_iff]
      push_cast
      constructor <;> linarith
    rw [hceil]
    rw [hq] at hless ⊢
    push_cast
    constructor <;> linarith

/-- The rounding of a quotient has the ceiling of the quotient. -/
theorem ceil_roundRational (hlt : n < 2 ^ 53) (hsize : 0 < size) (hle : size ≤ 2 ^ 63) :
    (roundRational false (n / size)).ceil? = some ⌈(n / size : ℚ)⌉ := by
  have hpos : (0 : ℚ) < size := by exact_mod_cast hsize
  rcases Nat.eq_zero_or_pos n with rfl | hn
  · rw [Nat.cast_zero, zero_div, roundRational, if_pos rfl, ceil?_finite, magnitude,
      Nat.cast_zero, zero_mul]
  have hquotient : (n / size : ℚ) ≤ n :=
    div_le_self (Nat.cast_nonneg n) (by exact_mod_cast hsize)
  rcases quotient_apart hlt hsize with ⟨k, hk⟩ | ⟨hbelow, habove⟩
  · -- an integer is its own rounding
    have hkPos : 0 < k := by
      have : (0 : ℚ) < k := hk ▸ by positivity
      exact_mod_cast this
    have hkLt : k < 2 ^ 53 := by
      have : (k : ℚ) ≤ n := hk ▸ hquotient
      have : k ≤ n := by exact_mod_cast this
      omega
    obtain ⟨m, e, hnormal, hm, hvalue⟩ := exists_normal hkPos hkLt
    rw [hk, ← hvalue, roundRational_magnitude false hnormal hm, ceil?_finite]
  · have hlow : (2 : ℚ) ^ (-1022 : Int) ≤ n / size := by
      have hone : (1 : ℚ) ≤ n := by exact_mod_cast hn
      have hgreat : (size : ℚ) ≤ 2 ^ 63 := by exact_mod_cast hle
      calc (2 : ℚ) ^ (-1022 : Int) ≤ 2 ^ (-63 : Int) :=
            zpow_le_zpow_right₀ (by norm_num) (by norm_num)
        _ = 1 / 2 ^ 63 := by norm_num
        _ ≤ n / size := by gcongr
    have hhigh : (n / size : ℚ) < 2 ^ (1000 : Int) := by
      have : (n : ℚ) < 2 ^ (53 : Int) := by exact_mod_cast hlt
      calc (n / size : ℚ) ≤ n := hquotient
        _ < 2 ^ (53 : Int) := this
        _ ≤ 2 ^ (1000 : Int) := zpow_le_zpow_right₀ (by norm_num) (by norm_num)
    obtain ⟨m, e, -, hround, herror⟩ := roundRational_error false hlow hhigh
    have hnear := abs_le.1 herror
    have hceil : ⌈magnitude m e⌉ = ⌈(n / size : ℚ)⌉ := by
      rw [Int.ceil_eq_iff]
      constructor <;> linarith
    rw [hround, ceil?_finite, hceil]

/-- A quotient that overflows has no ceiling, like the infinity that it is rounded to. -/
theorem ceil_ofQuotient (n : Nat) (hsize : 0 < size) :
    (ofQuotient? n size).bind ceil? = (roundRational false (n / size)).ceil? := by
  have hsign : (decide ((n : Int) < 0) != decide ((size : Int) < 0)) = false := by
    rw [decide_eq_false (Int.not_lt.2 (Int.natCast_nonneg n)),
      decide_eq_false (Int.not_lt.2 (Int.natCast_nonneg size))]
    rfl
  rw [ofQuotient?, hsign, Int.natAbs_natCast, Int.natAbs_natCast, ofRatio_eq false n hsize]
  cases roundRational false (n / size) <;> rfl

theorem ceil_quotient (hlt : n < 2 ^ 53) (hsize : 0 < size) (hle : size ≤ 2 ^ 63) :
    (ofQuotient? n size).bind ceil? = some ⌈(n / size : ℚ)⌉ :=
  (ceil_ofQuotient n hsize).trans (ceil_roundRational hlt hsize hle)

end Number.Binary64

/-! ## Counts of rows -/

namespace Executor

variable {x : Executor} {t : Table} {req : ExecutionRequest} {e : Envelope}

namespace Exact

/-- A numbered slice shows what there is between its bounds. -/
theorem length_records (h : x.Exact t req e) (hnumbered : req.spec.pagination.isCursor = false) :
    e.records.length = min req.spec.pagination.limit.toNat
      ((x.matching t req).length - req.spec.pagination.firstRow) := by
  have hlength := (mapM_eq_ok.1 h.records).length_eq
  rw [List.length_take, remaining_of_not_isCursor hnumbered, List.length_drop,
    (ordered_perm x t req).length_eq] at hlength
  exact hlength.symm

/-- A numbered slice is followed by rows if there are more than before its end. -/
theorem hasMore_eq (h : x.Exact t req e) (hnumbered : req.spec.pagination.isCursor = false) :
    e.hasMore = some (decide (req.spec.pagination.firstRow + req.spec.pagination.limit.toNat
      < (x.matching t req).length)) := by
  obtain ⟨more, hmore, hiff⟩ := h.hasMore
  rw [remaining_of_not_isCursor hnumbered, List.drop_drop, ne_eq, List.drop_eq_nil_iff, not_le,
    (ordered_perm x t req).length_eq] at hiff
  rw [hmore, Option.some.injEq, Bool.eq_iff_iff, hiff, decide_eq_true_iff]

end Exact
end Executor

/-! ## Counts of pages -/

namespace OffsetPage

variable (page : OffsetPage)

/-- How many pages of the size there are for so many rows; the last one may have some left. -/
def count (total : Int) : Int := ⌈(total / page.pageSize : ℚ)⌉

theorem startRow_add_pageSize : page.window.startRow + page.pageSize = page.window.endRow := by
  have hlimit := (Pagination.between_offset page).limit
  simp only [Pagination.limit] at hlimit
  omega

/-- A page has one after it if there are rows behind it. -/
theorem lt_count_iff (total : Int) :
    (page.page : Int) < page.count total ↔ page.window.endRow < total := by
  have hpos : (0 : ℚ) < page.pageSize := by exact_mod_cast page.size_pos
  rw [count, Int.lt_ceil, lt_div_iff₀ hpos, window]
  norm_cast

theorem count_le {total : Int} (h : 0 ≤ total) : page.count total ≤ total := by
  rw [count, Int.ceil_le]
  exact div_le_self (by exact_mod_cast h) (by exact_mod_cast page.size_pos)

end OffsetPage

namespace Envelope

variable {e : Envelope} {page : OffsetPage} {total : Int}

/-- What is shown on a page, and what is said of the pages, is as the total has it. -/
structure Paged (e : Envelope) (page : OffsetPage) (total : Int) : Prop where
  records : (e.records.length : Int)
    = min (page.pageSize : Int) (max 0 (total - page.window.startRow))
  described : ∃ block, e.pageEntries = .ok block ∧
    block.get? "totalPages" = some (.int (page.count total)) ∧
    block.get? "hasNextPage" = some (.bool (page.page < page.count total))
  linked : ∃ links, e.links = .ok links ∧
    (links.get? "next" ≠ none ↔ page.page < page.count total) ∧
    (links.get? "last" ≠ none ↔ page.page < page.count total) ∧
    ∀ link, links.get? "last" = some link →
      ∃ last, e.LeadsTo link last ∧ (last.page : Int) = page.count total ∧
        last.pageSize = page.pageSize

theorem page_of_offset (h : e.pagination = .offset page) :
    e.page = .ok ⟨some page.page, page.pageSize, page.window.startRow⟩ := by
  unfold Envelope.page
  rw [h]
  rfl

theorem totalPages_eq_count (htotal : e.totalCount = some total) (hpos : 0 ≤ total)
    (hlt : total < 2 ^ 53) (hsize : page.pageSize ≤ 2 ^ 63) :
    e.totalPages page.pageSize = .ok (some (page.count total)) := by
  obtain ⟨n, rfl⟩ := Int.eq_ofNat_of_zero_le hpos
  have hsizePos : (page.pageSize : Int) ≠ 0 := by
    have := page.size_pos
    omega
  have hceil := Binary64.ceil_quotient (n := n) (by omega) page.size_pos hsize
  rw [totalPages, htotal]
  simp only [if_neg hsizePos]
  rw [hceil, OffsetPage.count, Int.cast_natCast]

/-- The last page is linked behind every page before it. -/
theorem leadsTo_last {number : Int} {links : Entries}
    (h : e.Linked number page.pageSize (some (page.count total)) links) (hnumber : 1 ≤ number)
    (hpos : 0 ≤ total) (hlt : total < 2 ^ 53) (hsize : page.pageSize ≤ 2 ^ 63) :
    (links.get? "last" ≠ none ↔ number < page.count total) ∧
      ∀ link, links.get? "last" = some link →
        ∃ last, e.LeadsTo link last ∧ (last.page : Int) = page.count total ∧
          last.pageSize = page.pageSize := by
  rw [h.last, Option.getD_some]
  by_cases hbefore : number < page.count total
  · have hne : page.count total ≠ 0 := by omega
    rw [if_pos ⟨hne, hbefore⟩]
    refine ⟨by simp [hbefore], ?_⟩
    rintro link ⟨⟩
    obtain ⟨last, hlast⟩ := Int.eq_ofNat_of_zero_le (show 0 ≤ page.count total by omega)
    have hle := page.count_le hpos
    rw [hlast]
    exact ⟨_, e.leadsTo_pageLink (by omega) page.size_pos (by omega) (by omega), rfl, rfl⟩
  · rw [if_neg fun hlast => hbefore hlast.2]
    exact ⟨by simp [hbefore], fun link hlink => by cases hlink⟩

/-- It is enough that the records are those of the page, and that further ones are known of. -/
theorem paged_of_counts (hpagination : e.pagination = .offset page)
    (htotal : e.totalCount = some total) (hpos : 0 ≤ total) (hlt : total < 2 ^ 53)
    (hsize : page.pageSize ≤ 2 ^ 63)
    (hrecords : (e.records.length : Int)
      = min (page.pageSize : Int) (max 0 (total - page.window.startRow)))
    (hmore : e.hasMore = some (decide (page.window.endRow < total))) : e.Paged page total := by
  have hcursor : e.pagination.isCursor = false := by rw [hpagination]; rfl
  have hpage := page_of_offset hpagination
  have hpages := totalPages_eq_count htotal hpos hlt hsize
  simp only [← page.lt_count_iff] at hmore
  refine ⟨hrecords, ?_, ?_⟩
  · obtain ⟨block, hblock, hdescribed⟩ := described_pageEntries hcursor hpage hpages
    refine ⟨block, hblock, hdescribed.totalPages, ?_⟩
    rw [hdescribed.hasNextPage, hmore]
    rfl
  · obtain ⟨links, hlinks, hlinked⟩ := linked_pageLinks page.page hpages
    refine ⟨links, (links_eq_pageLinks hcursor hpage rfl).trans hlinks, ?_, ?_⟩
    · rw [hlinked.next, hmore]
      simp
    · exact leadsTo_last hlinked (by exact_mod_cast page.page_pos) hpos hlt hsize

end Envelope

namespace Executor

variable {x : Executor} {t : Table} {req : ExecutionRequest}

/-- The count of rows and the one row that is read behind a page agree: at the end of every page,
and for all totals that have an exact double. There is a next page exactly if rows are left behind
this one, although the count of pages is the ceiling of a quotient of doubles. -/
theorem execute_paged (hcolumns : t.columns = x.metadata.model.columns) (hsound : t.Sound)
    {page : OffsetPage} (hpage : req.spec.pagination = .offset page) {now : DateTime} {e : Envelope}
    (he : (x.execute t.run req now).result = .ok e) {total : Int}
    (htotal : e.totalCount = some total) (hlt : total < 2 ^ 53) : e.Paged page total := by
  have hnumbered : req.spec.pagination.isCursor = false := by rw [hpage]; rfl
  have hlimit : req.spec.pagination.limit = page.pageSize := by rw [hpage]; rfl
  have hfirst : req.spec.pagination.firstRow = page.window.startRow := by rw [hpage]; rfl
  have hpagination : e.pagination = .offset page := (asked_of_execute he).1.trans hpage
  obtain ⟨-, -, hreach⟩ := ready_of_execute he (by omega)
  have hsize : page.pageSize ≤ 2 ^ 63 := by
    unfold greatestInteger at hreach
    omega
  have hexact := execute_exact hcolumns hsound (by omega) he
  have hrecords := hexact.length_records hnumbered
  have hmore := hexact.hasMore_eq hnumbered
  obtain rfl := hexact.total total htotal
  rw [hlimit, hfirst, Int.toNat_natCast] at hrecords hmore
  rw [page.startRow_add_pageSize] at hmore
  refine Envelope.paged_of_counts hpagination htotal (Int.natCast_nonneg _) hlt hsize (by omega) ?_
  rw [hmore, Option.some.injEq, decide_eq_decide, Int.ofNat_lt]

open Listing in
/-- Two of the three quotes are on the first of two pages. -/
theorem quotes_paged :
    ∃ e, (quoteListing.executor.execute quotesBefore.run
        (executionOfPage { page := 1, pageSize := 2 }) { date := default }).result = .ok e ∧
      e.totalCount = some 3 ∧ e.Paged { page := 1, pageSize := 2 } 3 ∧
      OffsetPage.count { page := 1, pageSize := 2 } 3 = 2 := by
  have hsound : quotesBefore.Sound := by decide +kernel
  have hready : quoteListing.executor.Ready quotesBefore
      (executionOfPage { page := 1, pageSize := 2 }) := ⟨⟨_, rfl, rfl⟩, by decide +kernel⟩
  obtain ⟨e, he, -⟩ := execute_numbered rfl hsound hready
    (.offset { page := 1, pageSize := 2 }) rfl (by decide) (by decide) (by decide)
    (readsSlice_of_rows (by decide +kernel) _) { date := default }
  have hexact := execute_exact rfl hsound (by decide) he
  obtain ⟨total, htotal⟩ := Option.ne_none_iff_exists'.1 (hexact.total_of_needed rfl)
  have hthree : e.totalCount = some 3 := by
    rw [htotal, hexact.total total htotal]
    rfl
  refine ⟨e, he, hthree, execute_paged rfl hsound rfl he hthree (by decide), ?_⟩
  rw [OffsetPage.count, Int.ceil_eq_iff]
  norm_num

end Executor

end RecordQuery
