import RecordQuery.Proofs.FloatText

/-!
# Doubles and their decimal places

A column of numbers with places keeps doubles and shows them rounded. The rounded number is read as
a double again, which may be another one.

* `Binary64.keepsPlaces`: the double is the one that its rounded decimal is read as.
* `Binary64.keepsPlaces_of_toInt?`: so it is for integers.
* `Binary64.keepsPlaces_ofScientific`: so it is for the double of a decimal that has no more places
  and is of moderate size.
-/

namespace RecordQuery.Number

theorem sub_half_le_halfEven {q : ℚ} : q - 1 / 2 ≤ halfEven q := by
  have hfloor : q < ⌊q⌋₊ + 1 := Nat.lt_floor_add_one q
  unfold halfEven
  split_ifs
  · linarith
  · push_cast
    linarith
  · linarith
  · push_cast
    linarith

theorem halfEven_natCast (n : Nat) : halfEven (n : ℚ) = n :=
  halfEven_eq n.cast_nonneg (by linarith) (by linarith)

namespace Binary64

/-- The double is numerically the one that its decimal with so many places is read as. -/
def keepsPlaces (places : Nat) (x : Binary64) : Bool :=
  match x.toPlaces? places with
  | some (negative, count) => x.eqv (ofScientific ⟨negative, count, -places⟩)
  | none => true

theorem eqv_self {x : Binary64} (h : x.isNan = false) : x.eqv x = true := by
  cases x with
  | nan => cases h
  | infinity b => simp [eqv, compare?]
  | finite negative m e => simp [eqv, compare?]

/-! ## Exact numbers -/

/-- A double is rounded to itself. -/
theorem roundRational_magnitude (negative : Bool) {m : Nat} {e : Int} (h : Normal m e)
    (hm : 0 < m) : roundRational negative (magnitude m e) = .finite negative m e := by
  have hpos : 0 < magnitude m e := by
    unfold magnitude
    positivity
  apply roundRational_near negative h hm
  rw [sub_self, abs_zero]
  positivity

/-- The count of places of a double is its multiple by a power of ten, rounded. -/
theorem toPlaces?_finite (places : Nat) (negative : Bool) (m : Nat) (e : Int) :
    (finite negative m e).toPlaces? places
      = some (negative, halfEven (magnitude m e * 10 ^ places)) := by
  obtain ⟨hden, hratio⟩ := ratio_eq m e
  simp only [toPlaces?, roundDiv_eq _ hden, ← hratio]
  congr 3
  push_cast [Nat.pow_eq]
  ring

/-- The integer that a double is. -/
theorem magnitude_of_toInt? {negative : Bool} {m : Nat} {e : Int} {n : Int}
    (h : (finite negative m e).toInt? = some n) :
    magnitude m e = n.natAbs ∧ n = if negative then -(n.natAbs : Int) else n.natAbs := by
  obtain ⟨hden, hratio⟩ := ratio_eq m e
  simp only [toInt?, Option.ite_none_right_eq_some, Option.some.injEq] at h
  obtain ⟨hmod, rfl⟩ := h
  have hquotient : ((ratio m e).1 : Int) / (ratio m e).2
      = ((ratio m e).1 / (ratio m e).2 : Nat) := by
    norm_cast
  have habs : (if negative = true then -(((ratio m e).1 : Int) / (ratio m e).2)
      else ((ratio m e).1 : Int) / (ratio m e).2).natAbs = (ratio m e).1 / (ratio m e).2 := by
    rw [hquotient]
    split
    · rw [Int.natAbs_neg, Int.natAbs_natCast]
    · rw [Int.natAbs_natCast]
  rw [habs]
  refine ⟨?_, by rw [hquotient]⟩
  rw [← hratio, div_eq_iff (by exact_mod_cast hden.ne')]
  exact_mod_cast (Nat.div_mul_cancel (Nat.dvd_of_mod_eq_zero hmod)).symm

theorem Normal.zero_of_magnitude {m : Nat} {e : Int} (h : Normal m e) (hzero : magnitude m e = 0) :
    m = 0 ∧ e = leastExponent := by
  have hm : m = 0 := by
    have hpow : (2 : ℚ) ^ e ≠ 0 := by positivity
    simpa [magnitude, hpow] using hzero
  refine ⟨hm, h.full.resolve_left ?_⟩
  rw [hm]
  decide

/-- An integer that is a double is read as a double without a loss. -/
theorem ofInt?_of_toInt? {x : Binary64} (hdouble : x.IsDouble) {n : Int} (h : x.toInt? = some n) :
    ∃ m e, Normal m e ∧ ofInt? n = some (.finite (n < 0) m e) ∧ magnitude m e = n.natAbs := by
  cases x with
  | nan | infinity => cases h
  | finite negative m e =>
    obtain ⟨hvalue, -⟩ := magnitude_of_toInt? h
    have hratio := ofRatio_eq (n < 0) n.natAbs Nat.one_pos
    rw [Nat.cast_one, div_one] at hratio
    by_cases hzero : n = 0
    · subst hzero
      exact ⟨0, leastExponent, normal_zero, rfl, by simp [magnitude]⟩
    · have hm : 0 < m := by
        rw [Nat.pos_iff_ne_zero]
        rintro rfl
        rw [magnitude, Nat.cast_zero, zero_mul, eq_comm, Nat.cast_eq_zero] at hvalue
        omega
      rw [← hvalue, roundRational_magnitude _ hdouble hm] at hratio
      exact ⟨m, e, hdouble, by rw [ofInt?, hratio], hvalue⟩

/-- A double that is an integer compares equal to it. -/
theorem compareInt?_of_magnitude {n : Int} {m : Nat} {e : Int} (h : magnitude m e = n.natAbs) :
    (finite (n < 0) m e).compareInt? n = some .eq := by
  obtain ⟨hden, hratio⟩ := ratio_eq m e
  have hnum : (ratio m e).1 = n.natAbs * (ratio m e).2 := by
    rw [← hratio, div_eq_iff (by exact_mod_cast hden.ne')] at h
    exact_mod_cast h
  simp only [compareInt?, signedRatio, hnum, decide_eq_true_eq, Option.some.injEq,
    Std.LawfulEqOrd.compare_eq_iff_eq]
  push_cast
  split
  · rw [abs_of_neg ‹_›]
    ring
  · rw [abs_of_nonneg (by omega)]

section Places

variable {places : Nat} (hplaces : places < 2 ^ 31)

include hplaces

/-- An integer with places is read without a loss. -/
theorem ofScientific_places (negative : Bool) {m : Nat} {e : Int} (h : Normal m e) {k : Nat}
    (hk : magnitude m e = k) :
    ofScientific ⟨negative, k * 10 ^ places, -places⟩ = .finite negative m e := by
  rcases Nat.eq_zero_or_pos k with rfl | hpos
  · obtain ⟨rfl, rfl⟩ := h.zero_of_magnitude (by rw [hk, Nat.cast_zero])
    simp [ofScientific]
  have hm : 0 < m := by
    rw [Nat.pos_iff_ne_zero]
    rintro rfl
    rw [magnitude, Nat.cast_zero, zero_mul, eq_comm, Nat.cast_eq_zero] at hk
    omega
  have hpow : (10 : ℚ) ^ places ≠ 0 := by positivity
  have hvalue : numeralValue ⟨negative, k * 10 ^ places, -places⟩ = magnitude m e := by
    rw [numeralValue, hk, zpow_neg, zpow_natCast]
    push_cast
    rw [mul_assoc, mul_inv_cancel₀ hpow, mul_one]
  have hbelow : k < 2 ^ 1024 := by
    have hgreatest : magnitude m e < 2 ^ (1024 : Int) := by
      refine lt_of_lt_of_le ?_ (overflowBound_le_zpow le_rfl)
      refine (magnitude_le h).trans_lt ?_
      exact mul_lt_mul_of_pos_right (by norm_num) (by positivity)
    rw [hk] at hgreatest
    exact_mod_cast hgreatest
  have hlow : -400 ≤ decade ⟨negative, k * 10 ^ places, -places⟩ := by
    apply le_decade
    rw [hvalue, hk]
    calc (10 : ℚ) ^ (-330 : Int) ≤ 1 := zpow_le_one_of_nonpos₀ (by norm_num) (by norm_num)
      _ ≤ k := by exact_mod_cast hpos
  have hhigh := decade_le negative hplaces
    (Nat.mul_lt_mul_of_pos_right hbelow (Nat.pow_pos (by omega)))
  rw [ofScientific_eq hlow hhigh, hvalue, roundRational_magnitude negative h hm]

/-- An integer keeps its places. -/
theorem keepsPlaces_of_toInt? {x : Binary64} (hdouble : x.IsDouble) {n : Int}
    (h : x.toInt? = some n) : x.keepsPlaces places = true := by
  cases x with
  | nan | infinity => cases h
  | finite negative m e =>
    obtain ⟨hvalue, -⟩ := magnitude_of_toInt? h
    have hcount : halfEven (magnitude m e * 10 ^ places) = n.natAbs * 10 ^ places := by
      rw [hvalue]
      exact_mod_cast halfEven_natCast (n.natAbs * 10 ^ places)
    rw [keepsPlaces, toPlaces?_finite, hcount]
    simp only [ofScientific_places hplaces negative hdouble hvalue]
    exact eqv_self rfl

end Places

/-! ## Decimals of moderate size -/

/-- A number is rounded to a double that is close to it. -/
theorem roundRational_error (negative : Bool) {q : ℚ} (hlow : (2 : ℚ) ^ (-1022 : Int) ≤ q)
    (hhigh : q < 2 ^ (1000 : Int)) :
    ∃ m e, Normal m e ∧ roundRational negative q = .finite negative m e ∧
      |magnitude m e - q| ≤ q / 2 ^ 53 := by
  have hpos : 0 < q := lt_of_lt_of_le (by positivity) hlow
  have hlogLow : -1022 ≤ Int.log 2 q := by
    rw [← Int.zpow_le_iff_le_log (b := 2) (by decide) hpos]
    exact_mod_cast hlow
  have hlogHigh : Int.log 2 q < 1000 := by
    rw [← Int.lt_zpow_iff_log_lt (b := 2) (by decide) hpos]
    exact_mod_cast hhigh
  have hdouble := isDouble_roundRational negative hpos.le
  have hscale : max (Int.log 2 q - 52) leastExponent = Int.log 2 q - 52 := by
    unfold leastExponent
    omega
  generalize hexponent : Int.log 2 q - 52 = e at hscale
  have hpow : (0 : ℚ) < 2 ^ e := by positivity
  have hunit : (2 : ℚ) ^ e ≤ q / 2 ^ 52 := by
    rw [le_div_iff₀ (by norm_num)]
    calc (2 : ℚ) ^ e * 2 ^ 52 = 2 ^ (e + 52) := by
          rw [zpow_add₀ (by norm_num)]
          norm_cast
      _ = 2 ^ Int.log 2 q := by rw [← hexponent, sub_add_cancel]
      _ ≤ q := by exact_mod_cast Int.zpow_log_le_self (b := 2) (by decide) hpos
  have hnear : |(halfEven (q / 2 ^ e) : ℚ) * 2 ^ e - q| ≤ q / 2 ^ 53 := by
    have hquotient : 0 ≤ q / 2 ^ e := by positivity
    have habove := halfEven_le_add_half hquotient
    have hbelow : q / 2 ^ e - 1 / 2 ≤ halfEven (q / 2 ^ e) := sub_half_le_halfEven
    have hsplit : (halfEven (q / 2 ^ e) : ℚ) * 2 ^ e - q
        = ((halfEven (q / 2 ^ e) : ℚ) - q / 2 ^ e) * 2 ^ e := by
      field_simp
    rw [hsplit, abs_mul, abs_of_pos hpow]
    calc |(halfEven (q / 2 ^ e) : ℚ) - q / 2 ^ e| * 2 ^ e ≤ 1 / 2 * 2 ^ e := by
          gcongr
          rw [abs_le]
          constructor <;> linarith
      _ ≤ 1 / 2 * (q / 2 ^ 52) := by gcongr
      _ = q / 2 ^ 53 := by ring
  unfold roundRational at hdouble ⊢
  rw [if_neg hpos.ne'] at hdouble ⊢
  simp only [hexponent, hscale] at hdouble ⊢
  by_cases hcarry : halfEven (q / 2 ^ e) = 0x20000000000000
  · have hlarge : ¬ greatestExponent < e + 1 := by
      unfold greatestExponent
      omega
    simp only [hcarry, if_true, hlarge, if_false] at hdouble ⊢
    refine ⟨_, _, hdouble, rfl, ?_⟩
    have hsame : magnitude 0x10000000000000 (e + 1) = (halfEven (q / 2 ^ e) : ℚ) * 2 ^ e := by
      rw [magnitude, hcarry, zpow_add_one₀ (by norm_num)]
      norm_num
      ring
    rw [hsame]
    exact hnear
  · have hlarge : ¬ greatestExponent < e := by
      unfold greatestExponent
      omega
    simp only [hcarry, hlarge, if_false] at hdouble ⊢
    exact ⟨_, _, hdouble, rfl, hnear⟩

section Moderate

variable {places count : Nat} (hplaces : places ≤ 300) (hcount : count < 2 ^ 52)

include hcount in
theorem lt_of_moderate : (count : ℚ) / 10 ^ places < 2 ^ 52 := by
  have hone : (1 : ℚ) ≤ 10 ^ places := one_le_pow₀ (by norm_num)
  rw [div_lt_iff₀ (by positivity)]
  calc (count : ℚ) < 2 ^ 52 := by exact_mod_cast hcount
    _ ≤ 2 ^ 52 * 10 ^ places := le_mul_of_one_le_right (by norm_num) hone

include hplaces in
theorem le_of_moderate (hpos : 0 < count) : (10 : ℚ) ^ (-300 : Int) ≤ count / 10 ^ places := by
  have hone : (1 : ℚ) ≤ count := by exact_mod_cast hpos
  calc (10 : ℚ) ^ (-300 : Int) ≤ 10 ^ (-(places : Int)) :=
        zpow_le_zpow_right₀ (by norm_num) (by omega)
    _ = 1 / 10 ^ places := by rw [zpow_neg, zpow_natCast, one_div]
    _ ≤ count / 10 ^ places := by gcongr

include hplaces hcount in
/-- Numerals of this size are rounded by their value. -/
theorem ofScientific_moderate (hpos : 0 < count) {s : Scientific}
    (hlog : Nat.log2 s.coefficient < 3000) (hvalue : numeralValue s = count / 10 ^ places) :
    ofScientific s = roundRational s.negative (count / 10 ^ places) := by
  have hcoefficient : 0 < s.coefficient := by
    rw [Nat.pos_iff_ne_zero]
    intro hzero
    rw [numeralValue, hzero, Nat.cast_zero, zero_mul] at hvalue
    have : (0 : ℚ) < count / 10 ^ places := by positivity
    linarith
  have hlow : (10 : ℚ) ^ (-330 : Int) ≤ numeralValue s :=
    hvalue ▸ (zpow_le_zpow_right₀ (by norm_num) (by decide)).trans (le_of_moderate hplaces hpos)
  have hhigh : numeralValue s < 10 ^ (311 : Int) := by
    rw [hvalue]
    calc (count : ℚ) / 10 ^ places < 2 ^ 52 := lt_of_moderate hcount
      _ ≤ 10 ^ (16 : Int) := by norm_num
      _ ≤ 10 ^ (311 : Int) := zpow_le_zpow_right₀ (by norm_num) (by decide)
  obtain ⟨hleast, hgreatest⟩ := decade_range hcoefficient hlog hlow hhigh
  rw [ofScientific_eq hleast hgreatest, hvalue]

include hcount in
/-- The error of rounding is too small to show in the places. -/
theorem halfEven_moderate {m : Nat} {e : Int}
    (herror : |magnitude m e - count / 10 ^ places| ≤ count / 10 ^ places / 2 ^ 53) :
    halfEven (magnitude m e * 10 ^ places) = count := by
  have hpow : (0 : ℚ) < 10 ^ places := by positivity
  have hnonneg : 0 ≤ magnitude m e * 10 ^ places := by
    unfold magnitude
    positivity
  have hunits : |magnitude m e * 10 ^ places - count| ≤ count / 2 ^ 53 := by
    have hsplit : magnitude m e * 10 ^ places - count
        = (magnitude m e - count / 10 ^ places) * 10 ^ places := by
      field_simp
    rw [hsplit, abs_mul, abs_of_pos hpow]
    calc |magnitude m e - count / 10 ^ places| * 10 ^ places
        ≤ count / 10 ^ places / 2 ^ 53 * 10 ^ places := by gcongr
      _ = count / 2 ^ 53 := by field_simp
  have hhalf : (count : ℚ) / 2 ^ 53 < 1 / 2 := by
    have : (count : ℚ) < 2 ^ 52 := by exact_mod_cast hcount
    rw [div_lt_iff₀ (by norm_num)]
    linarith
  rw [abs_le] at hunits
  exact halfEven_eq hnonneg (by linarith) (by linarith)

include hplaces hcount

theorem roundRational_moderate (hpos : 0 < count) (negative : Bool) :
    ∃ m e, roundRational negative (count / 10 ^ places) = .finite negative m e ∧
      halfEven (magnitude m e * 10 ^ places) = count := by
  have hleast : (2 : ℚ) ^ (-1022 : Int) ≤ 10 ^ (-300 : Int) := by
    rw [zpow_neg, zpow_neg]
    apply inv_anti₀ (by positivity)
    exact_mod_cast (by decide +kernel : 10 ^ 300 ≤ 2 ^ 1022)
  have hmost : (2 : ℚ) ^ 52 < 2 ^ (1000 : Int) := by
    rw [← zpow_natCast]
    exact zpow_lt_zpow_right₀ (by norm_num) (by decide)
  obtain ⟨m, e, -, hround, herror⟩ := roundRational_error negative
    (hleast.trans (le_of_moderate hplaces hpos)) ((lt_of_moderate hcount).trans hmost)
  exact ⟨m, e, hround, halfEven_moderate hcount herror⟩

/-- The double of a decimal keeps the places of the decimal if the decimal, without its point, is
below `2 ^ 52`. -/
theorem keepsPlaces_ofScientific {s : Scientific} (hlog : Nat.log2 s.coefficient < 3000)
    (hvalue : numeralValue s = count / 10 ^ places) :
    (ofScientific s).keepsPlaces places = true := by
  rcases Nat.eq_zero_or_pos count with rfl | hpos
  · have hzero : s.coefficient = 0 := by
      have hten : (10 : ℚ) ^ s.exponent ≠ 0 := by positivity
      simpa [numeralValue, hten] using hvalue
    have hnothing : halfEven (magnitude 0 leastExponent * 10 ^ places) = 0 := by
      rw [magnitude, Nat.cast_zero, zero_mul, zero_mul]
      exact halfEven_natCast 0
    rw [ofScientific, if_pos hzero, keepsPlaces, toPlaces?_finite, hnothing]
    exact eqv_self rfl
  obtain ⟨m, e, hround, hback⟩ := roundRational_moderate hplaces hcount hpos s.negative
  have hagain : ofScientific ⟨s.negative, count, -places⟩ = .finite s.negative m e := by
    rw [ofScientific_moderate hplaces hcount hpos _ _, hround]
    · have hlogCount := (Nat.log2_lt hpos.ne').2 hcount
      exact hlogCount.trans (by decide)
    · rw [numeralValue, zpow_neg, zpow_natCast, div_eq_mul_inv]
  rw [ofScientific_moderate hplaces hcount hpos hlog hvalue, hround, keepsPlaces,
    toPlaces?_finite, hback]
  simp only [hagain]
  exact eqv_self rfl

end Moderate

/-- With more places than are kept, the double can be lost: 6.25 is read again as 6.2. -/
example : (ofScientific ⟨false, 625, -2⟩).keepsPlaces 2 = true ∧
    (ofScientific ⟨false, 625, -2⟩).keepsPlaces 1 = false := by decide +kernel

end Binary64
end RecordQuery.Number
