import RecordQuery.Proofs.Shortest

/-!
# Numbers beyond the doubles

A number is rounded to an infinity if it lies beyond the greatest double by half of the last place
or more.

* `Binary64.overflowBound`: the least number that is rounded to an infinity.
* `Binary64.roundRational_eq_infinity_iff`: no other numbers are.
* `Binary64.ofInt?_eq_none_iff`: which integers have no nearest double.
* `Binary64.isFinite_places`: a finite double, rounded to decimal places, is read as a finite one.
-/

namespace RecordQuery.Number

/-- Of the numbers below `2 ^ 53` those are rounded up to it that are at most a half away: the
integer before it is odd. -/
theorem halfEven_eq_carry_iff {q : ℚ} (hq : 0 ≤ q) (hlt : q < 2 ^ 53) :
    halfEven q = 2 ^ 53 ↔ 2 ^ 53 - 1 / 2 ≤ q := by
  constructor
  · intro h
    by_contra hbelow
    have hfloor : ⌊q⌋₊ < 2 ^ 53 := (Nat.floor_lt hq).2 (by exact_mod_cast hlt)
    have hlast : ⌊q⌋₊ = 2 ^ 53 - 1 := by
      rcases halfEven_mem (q := q) with h' | h' <;> omega
    rw [halfEven, hlast, if_pos] at h
    · norm_num at h
    · push_cast [Nat.one_le_two_pow]
      linarith
  · intro h
    have hfloor : ⌊q⌋₊ = 2 ^ 53 - 1 := by
      rw [Nat.floor_eq_iff hq]
      constructor
      · push_cast [Nat.one_le_two_pow]
        linarith
      · push_cast [Nat.one_le_two_pow]
        linarith
    have hhalf : ¬ q - ((2 ^ 53 - 1 : Nat) : ℚ) < 1 / 2 := by
      push_cast [Nat.one_le_two_pow]
      linarith
    rw [halfEven, hfloor, if_neg hhalf]
    split_ifs with habove hodd
    · norm_num
    · norm_num at hodd
    · norm_num

theorem halfEven_le_add_half {q : ℚ} (hq : 0 ≤ q) : (halfEven q : ℚ) ≤ q + 1 / 2 := by
  have hfloor : (⌊q⌋₊ : ℚ) ≤ q := Nat.floor_le hq
  unfold halfEven
  split_ifs
  · linarith
  · push_cast
    linarith
  · linarith
  · push_cast
    linarith

namespace Binary64

/-! ## Rounding to an infinity -/

/-- The greatest double is `(2 ^ 53 - 1) * 2 ^ greatestExponent`; this is half a place more. -/
def overflowBound : ℚ := (2 ^ 53 - 1 / 2) * 2 ^ greatestExponent

theorem zpow_eq_scaled (k : Int) :
    (2 : ℚ) ^ k = 2 ^ (k - greatestExponent) * 2 ^ greatestExponent := by
  rw [← zpow_add₀ (by norm_num), sub_add_cancel]

theorem zpow_lt_overflowBound {k : Int} (hk : k ≤ 1023) : (2 : ℚ) ^ k < overflowBound := by
  have hplaces : k - greatestExponent ≤ 52 := by
    have : greatestExponent = 971 := rfl
    omega
  rw [zpow_eq_scaled, overflowBound]
  gcongr
  calc (2 : ℚ) ^ (k - greatestExponent) ≤ 2 ^ (52 : Int) :=
        zpow_le_zpow_right₀ (by norm_num) hplaces
    _ < 2 ^ 53 - 1 / 2 := by norm_num

theorem overflowBound_le_zpow {k : Int} (hk : 1024 ≤ k) : overflowBound ≤ (2 : ℚ) ^ k := by
  have hplaces : 53 ≤ k - greatestExponent := by
    have : greatestExponent = 971 := rfl
    omega
  rw [zpow_eq_scaled, overflowBound]
  gcongr
  calc (2 : ℚ) ^ 53 - 1 / 2 ≤ 2 ^ (53 : Int) := by norm_num
    _ ≤ 2 ^ (k - greatestExponent) := zpow_le_zpow_right₀ (by norm_num) hplaces

/-- A number that is not negative is rounded to an infinity if it reaches the bound. -/
theorem roundRational_eq_infinity_iff (negative : Bool) {q : ℚ} (hq : 0 ≤ q) :
    roundRational negative q = .infinity negative ↔ overflowBound ≤ q := by
  rcases hq.eq_or_lt with rfl | hpos
  · have hbound : 0 < overflowBound := lt_trans (by positivity) (zpow_lt_overflowBound le_rfl)
    simp [roundRational, hbound]
  have hlow : (2 : ℚ) ^ Int.log 2 q ≤ q := by
    exact_mod_cast Int.zpow_log_le_self (b := 2) (by decide) hpos
  have hhigh : q < (2 : ℚ) ^ (Int.log 2 q + 1) := by
    exact_mod_cast Int.lt_zpow_succ_log_self (b := 2) (by decide) q
  have hleast : leastExponent = -1074 := rfl
  have hgreatest : greatestExponent = 971 := rfl
  unfold roundRational
  rw [if_neg hpos.ne']
  simp only
  rcases lt_trichotomy (Int.log 2 q) 1023 with hsmall | hlast | hlarge
  · have hbelow : q < overflowBound := hhigh.trans (zpow_lt_overflowBound (by omega))
    simp only [not_le.2 hbelow, iff_false]
    split_ifs
    all_goals first | omega | simp
  · -- The scale is that of the greatest double, which a carry leaves.
    have hexponent : max (Int.log 2 q - 52) leastExponent = greatestExponent := by omega
    have hunit : (0 : ℚ) < 2 ^ greatestExponent := by positivity
    have hquotient : q / 2 ^ greatestExponent < 2 ^ 53 := by
      rw [div_lt_iff₀ hunit]
      have hplaces : (1023 : Int) + 1 - greatestExponent = (53 : Nat) := by omega
      calc q < (2 : ℚ) ^ (Int.log 2 q + 1) := hhigh
        _ = 2 ^ 53 * 2 ^ greatestExponent := by
          rw [zpow_eq_scaled, hlast, hplaces, zpow_natCast]
    have hcarry : halfEven (q / 2 ^ greatestExponent) = 2 ^ 53 ↔ overflowBound ≤ q := by
      rw [halfEven_eq_carry_iff (by positivity) hquotient, le_div_iff₀ hunit, overflowBound]
    rw [hexponent, ← hcarry]
    by_cases hm : halfEven (q / 2 ^ greatestExponent) = 2 ^ 53
    · simp only [hm, Nat.reducePow, if_true, lt_add_one, iff_self]
    · have hm' : ¬ halfEven (q / 2 ^ greatestExponent) = 0x20000000000000 := by omega
      simp only [hm, hm', lt_irrefl, if_false, reduceCtorEq]
  · have habove : overflowBound ≤ q := (overflowBound_le_zpow (by omega)).trans hlow
    simp only [habove, iff_true]
    split_ifs
    all_goals first | omega | rfl

theorem roundRational_eq_infinity {negative negative' : Bool} {q : ℚ}
    (h : roundRational negative q = .infinity negative') : negative' = negative := by
  unfold roundRational at h
  simp only at h
  split_ifs at h
  all_goals cases h
  all_goals rfl

/-- The bound as an integer. -/
def overflowInteger : Nat := 2 ^ 1024 - 2 ^ 970

theorem roundRational_ne_nan (negative : Bool) (q : ℚ) : roundRational negative q ≠ .nan := by
  unfold roundRational
  simp only
  split_ifs
  all_goals simp

theorem isFinite_roundRational_iff (negative : Bool) {q : ℚ} (hq : 0 ≤ q) :
    (roundRational negative q).isFinite = true ↔ q < overflowBound := by
  rw [← not_le, ← roundRational_eq_infinity_iff negative hq]
  cases h : roundRational negative q with
  | nan => exact absurd h (roundRational_ne_nan negative q)
  | infinity negative' => simp [isFinite, roundRational_eq_infinity h]
  | finite => simp [isFinite]

/-! ## Decimals -/

theorem numeralValue_nonneg (s : Scientific) : 0 ≤ numeralValue s := by
  unfold numeralValue
  positivity

/-- A numeral is read as a finite number if it stays below the bound. -/
theorem isFinite_ofScientific {s : Scientific} (hhigh : decade s ≤ 400)
    (hvalue : numeralValue s < overflowBound) : (ofScientific s).isFinite = true := by
  by_cases hlow : -400 ≤ decade s
  · rw [ofScientific_eq hlow hhigh, isFinite_roundRational_iff _ (numeralValue_nonneg s)]
    exact hvalue
  · unfold decade at hlow hhigh
    simp only [not_le] at hlow
    unfold ofScientific
    simp only [gt_iff_lt, not_lt.2 hhigh, hlow, if_true, if_false]
    split_ifs <;> rfl

/-- Powers of one number are measured by powers of another. -/
theorem pow_le_pow_div {a b c d : Nat} (hc : c ≠ 0) (hbase : a ^ c ≤ b ^ d) (hb : 0 < b) (n : Nat) :
    a ^ n ≤ b ^ (d * n / c + 1) := by
  refine (Nat.pow_le_pow_iff_left hc).1 ?_
  have hle : d * n ≤ (d * n / c + 1) * c := by
    have := Nat.lt_div_mul_add (a := d * n) (Nat.pos_of_ne_zero hc)
    rw [Nat.add_mul, Nat.one_mul]
    omega
  calc (a ^ n) ^ c = (a ^ c) ^ n := pow_right_comm a n c
    _ ≤ (b ^ d) ^ n := Nat.pow_le_pow_left hbase n
    _ = b ^ (d * n) := (pow_mul b d n).symm
    _ ≤ b ^ ((d * n / c + 1) * c) := Nat.pow_le_pow_right hb hle
    _ = (b ^ (d * n / c + 1)) ^ c := pow_mul b _ c

theorem ten_pow_le (n : Nat) : 10 ^ n ≤ 2 ^ (28738 * n / 8651 + 1) :=
  pow_le_pow_div (by decide) (by decide +kernel) (by decide) n

/-- The count of places in a number below the bound is recognized as no large number. -/
theorem decade_le (negative : Bool) {count places : Nat} (hplaces : places < 2 ^ 31)
    (hcount : count < 2 ^ 1024 * 10 ^ places) : decade ⟨negative, count, -places⟩ ≤ 400 := by
  have hlog : Nat.log2 count < 1024 + (28738 * places / 8651 + 1) := by
    rcases Nat.eq_zero_or_pos count with rfl | hpos
    · rw [Nat.log2_zero]
      omega
    rw [Nat.log2_lt hpos.ne', pow_add]
    exact hcount.trans_le (Nat.mul_le_mul_left _ (ten_pow_le places))
  unfold decade
  simp only
  omega

theorem magnitude_le {m : Nat} {e : Int} (h : Normal m e) :
    magnitude m e ≤ (2 ^ 53 - 1) * 2 ^ greatestExponent := by
  have hscale : (2 : ℚ) ^ e ≤ 2 ^ greatestExponent :=
    zpow_le_zpow_right₀ (by norm_num) h.le_greatest
  have hplaces : (0 : ℚ) ≤ 2 ^ 53 - 1 := by norm_num
  exact mul_le_mul h.cast_le hscale (by positivity) hplaces

/-- A double rounded to a number of places stays below the bound. -/
theorem numeralValue_places_lt {places : Nat} {negative negative' : Bool} {m : Nat} {e : Int}
    (h : Normal m e) {count : Nat}
    (hcount : (finite negative m e).toPlaces? places = some (negative', count)) :
    numeralValue ⟨negative', count, -places⟩ < overflowBound := by
  obtain ⟨hden, hratio⟩ := ratio_eq m e
  have hpow : (0 : ℚ) < 10 ^ places := by positivity
  have hround : (count : ℚ) ≤ magnitude m e * 10 ^ places + 1 / 2 := by
    simp only [toPlaces?, Option.some.injEq, Prod.mk.injEq] at hcount
    rw [← hcount.2, roundDiv_eq _ hden, ← hratio]
    refine (halfEven_le_add_half (by positivity)).trans_eq ?_
    push_cast [Nat.pow_eq]
    ring
  have hunit : (1 : ℚ) < 2 ^ greatestExponent := one_lt_zpow₀ (by norm_num) (by decide)
  have hgreatest := magnitude_le h
  unfold overflowBound
  generalize (2 : ℚ) ^ greatestExponent = unit at hunit hgreatest ⊢
  calc numeralValue ⟨negative', count, -places⟩ = count / 10 ^ places := by
        rw [numeralValue, zpow_neg, zpow_natCast, div_eq_mul_inv]
    _ ≤ magnitude m e + 1 / 2 / 10 ^ places := by
        rw [div_le_iff₀ hpow, add_mul, div_mul_cancel₀ _ hpow.ne']
        exact hround
    _ ≤ magnitude m e + 1 / 2 := by
        have hone : (1 : ℚ) ≤ 10 ^ places := one_le_pow₀ (by norm_num)
        have := div_le_self (a := (1 / 2 : ℚ)) (by norm_num) hone
        linarith
    _ < (2 ^ 53 - 1 / 2) * unit := by linarith

/-- A finite double, rounded to a number of places, is read as a finite double. -/
theorem isFinite_places {places : Nat} (hplaces : places < 2 ^ 31) {negative negative' : Bool}
    {m : Nat} {e : Int} (h : Normal m e) {count : Nat}
    (hcount : (finite negative m e).toPlaces? places = some (negative', count)) :
    (ofScientific ⟨negative', count, -places⟩).isFinite = true := by
  have hvalue := numeralValue_places_lt h hcount
  refine isFinite_ofScientific (decade_le _ hplaces ?_) hvalue
  have hpow : (0 : ℚ) < 10 ^ places := by positivity
  have hbelow : (count : ℚ) / 10 ^ places < 2 ^ (1024 : Int) := by
    refine lt_of_lt_of_le ?_ (overflowBound_le_zpow le_rfl)
    rwa [numeralValue, zpow_neg, zpow_natCast, ← div_eq_mul_inv] at hvalue
  rw [div_lt_iff₀ hpow] at hbelow
  exact_mod_cast hbelow

end Binary64
end RecordQuery.Number
