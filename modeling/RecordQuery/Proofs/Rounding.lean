import Mathlib.Algebra.Order.Field.Power
import Mathlib.Algebra.Order.Floor.Semifield
import Mathlib.Data.Int.Log
import Mathlib.Data.Rat.Floor
import Mathlib.Tactic.FieldSimp
import Mathlib.Tactic.GCongr
import Mathlib.Tactic.Linarith
import Mathlib.Tactic.Positivity
import Mathlib.Tactic.Ring
import RecordQuery.Number.Binary64

/-!
# Rounding to doubles

The double that a quotient of naturals is rounded to depends on the rational number alone.

* `Binary64.roundRational`: the double nearest to a rational number, ties to the even mantissa.
* `Binary64.ofRatio_eq`, `Binary64.ofScientific_eq`: quotients and scientific numerals are rounded
  by their values.
* `Binary64.isDouble_roundRational`: the result is a double in its normal form.
* `Binary64.roundRational_near`: numbers that are close enough to a double are rounded to it.
-/

namespace RecordQuery.Number

/-! ## Integers -/

/-- The integer nearest to a rational number that is not negative, ties to the even one. -/
def halfEven (q : ℚ) : Nat :=
  if q - ⌊q⌋₊ < 1 / 2 then ⌊q⌋₊
  else if 1 / 2 < q - ⌊q⌋₊ then ⌊q⌋₊ + 1
  else if ⌊q⌋₊ % 2 = 0 then ⌊q⌋₊ else ⌊q⌋₊ + 1

theorem roundDiv_eq (num : Nat) {den : Nat} (hden : 0 < den) :
    roundDiv num den = halfEven (num / den : ℚ) := by
  have hpos : (0 : ℚ) < den := by exact_mod_cast hden
  have hfloor : ⌊(num / den : ℚ)⌋₊ = num / den := Nat.floor_div_eq_div num den
  have hrest : (num / den : ℚ) - (num / den : Nat) = (num % den : Nat) / den := by
    have hsplit : (num : ℚ) = den * (num / den : Nat) + (num % den : Nat) := by
      exact_mod_cast (Nat.div_add_mod num den).symm
    field_simp
    linarith
  have hbelow : 2 * (num % den) < den ↔ ((num % den : Nat) / den : ℚ) < 1 / 2 := by
    rw [div_lt_iff₀ hpos, ← Nat.cast_lt (α := ℚ)]
    push_cast
    constructor <;> intro h <;> linarith
  have habove : den < 2 * (num % den) ↔ 1 / 2 < ((num % den : Nat) / den : ℚ) := by
    rw [lt_div_iff₀ hpos, ← Nat.cast_lt (α := ℚ)]
    push_cast
    constructor <;> intro h <;> linarith
  simp only [roundDiv, halfEven, hfloor, hrest, hbelow, habove]

theorem halfEven_mem {q : ℚ} : halfEven q = ⌊q⌋₊ ∨ halfEven q = ⌊q⌋₊ + 1 := by
  unfold halfEven
  split_ifs <;> simp

theorem le_halfEven {q : ℚ} {n : Nat} (h : (n : ℚ) ≤ q) : n ≤ halfEven q := by
  have hfloor : n ≤ ⌊q⌋₊ := Nat.le_floor h
  rcases halfEven_mem (q := q) with h | h <;> omega

theorem halfEven_le {q : ℚ} (hq : 0 ≤ q) {n : Nat} (h : q < n) : halfEven q ≤ n := by
  have hfloor : ⌊q⌋₊ < n := (Nat.floor_lt hq).2 h
  rcases halfEven_mem (q := q) with h | h <;> omega

/-- A number closer than a half to an integer is rounded to it. -/
theorem halfEven_eq {q : ℚ} (hq : 0 ≤ q) {n : Nat} (hlow : (n : ℚ) - 1 / 2 < q)
    (hhigh : q < n + 1 / 2) : halfEven q = n := by
  rcases le_or_gt (n : ℚ) q with hle | hlt
  · have hfloor : ⌊q⌋₊ = n := (Nat.floor_eq_iff hq).2 ⟨hle, by linarith⟩
    rw [halfEven, hfloor, if_pos (by linarith)]
  · have hpos : 1 ≤ n := by
      by_contra hn
      have hzero : n = 0 := by omega
      rw [hzero, Nat.cast_zero] at hlt
      linarith
    have hcast : ((n - 1 : Nat) : ℚ) = n - 1 := by
      rw [Nat.cast_sub hpos, Nat.cast_one]
    have hfloor : ⌊q⌋₊ = n - 1 := (Nat.floor_eq_iff hq).2 ⟨by linarith, by linarith⟩
    rw [halfEven, hfloor, hcast, if_neg (by linarith), if_pos (by linarith)]
    omega

namespace Binary64

/-! ## Quotients -/

/-- A number lies between the powers of two at its leading bit. -/
theorem log2_bounds {n : Nat} (h : 0 < n) :
    (2 : ℚ) ^ (Nat.log2 n : Int) ≤ n ∧ (n : ℚ) < 2 ^ ((Nat.log2 n : Int) + 1) := by
  have hself : 2 ^ n.log2 ≤ n := Nat.log2_self_le (by omega)
  have hlt : n < 2 ^ (n.log2 + 1) := Nat.lt_log2_self
  have hcast : ((n.log2 : Int) + 1) = ((n.log2 + 1 : Nat) : Int) := by
    push_cast
    rfl
  rw [hcast, zpow_natCast, zpow_natCast]
  constructor
  · exact_mod_cast hself
  · exact_mod_cast hlt

section Ratio

variable {num den : Nat}

/-- A quotient is scaled up by a power in the numerator. -/
theorem div_zpow_of_neg (base : Nat) {k : Int} (hk : k < 0) :
    (num / den : ℚ) / (base : ℚ) ^ k = (num * Nat.pow base (-k).toNat : Nat) / den := by
  obtain ⟨n, rfl⟩ : ∃ n : Nat, k = -n := ⟨(-k).toNat, by omega⟩
  rw [neg_neg, Int.toNat_natCast, zpow_neg, zpow_natCast, div_inv_eq_mul]
  push_cast [Nat.pow_eq]
  ring

/-- A quotient is scaled down by a power in the denominator. -/
theorem div_zpow_of_nonneg (base : Nat) {k : Int} (hk : 0 ≤ k) :
    (num / den : ℚ) / (base : ℚ) ^ k = num / (den * Nat.pow base k.toNat : Nat) := by
  obtain ⟨n, rfl⟩ := Int.eq_ofNat_of_zero_le hk
  rw [Int.toNat_natCast, zpow_natCast, div_div]
  push_cast [Nat.pow_eq]
  rfl

variable (hden : 0 < den)

include hden

theorem one_le_ratio_iff : den ≤ num ↔ (1 : ℚ) ≤ num / den := by
  have hpos : (0 : ℚ) < den := by exact_mod_cast hden
  rw [one_le_div hpos, Nat.cast_le]

/-- A power is compared with a quotient on the side on which it is an integer. -/
theorem zpow_le_ratio_iff (base : Nat) (hbase : 0 < base) (k : Int) :
    (if k < 0 then decide (den ≤ num * Nat.pow base (-k).toNat)
      else decide (den * Nat.pow base k.toNat ≤ num)) = true ↔ (base : ℚ) ^ k ≤ num / den := by
  have hcast : (0 : ℚ) < base := by exact_mod_cast hbase
  have hpow : (0 : ℚ) < (base : ℚ) ^ k := zpow_pos hcast k
  rw [← one_le_div hpow]
  rcases lt_or_ge k 0 with hk | hk
  · rw [if_pos hk, decide_eq_true_eq, one_le_ratio_iff hden, div_zpow_of_neg base hk]
  · have hscaled : 0 < den * Nat.pow base k.toNat := Nat.mul_pos hden (Nat.pow_pos hbase)
    rw [if_neg (not_lt.2 hk), decide_eq_true_eq, one_le_ratio_iff hscaled,
      div_zpow_of_nonneg base hk]

theorem scaledQuotient_eq (e : Int) :
    scaledQuotient num den e = halfEven ((num / den : ℚ) / 2 ^ e) := by
  unfold scaledQuotient
  rcases lt_or_ge e 0 with he | he
  · rw [if_pos he, roundDiv_eq _ hden, ← div_zpow_of_neg 2 he, Nat.cast_ofNat]
  · have hscaled : 0 < den * Nat.pow 2 e.toNat := Nat.mul_pos hden (Nat.pow_pos (by omega))
    rw [if_neg (not_lt.2 he), roundDiv_eq _ hscaled, ← div_zpow_of_nonneg 2 he, Nat.cast_ofNat]

theorem leadingBit_eq (hnum : 0 < num) : leadingBit num den = Int.log 2 (num / den : ℚ) := by
  have hd : (0 : ℚ) < den := by exact_mod_cast hden
  have hn : (0 : ℚ) < num := by exact_mod_cast hnum
  have hq : (0 : ℚ) < num / den := div_pos hn hd
  have hle (k : Int) : (2 : ℚ) ^ k ≤ num / den ↔ k ≤ Int.log 2 (num / den : ℚ) :=
    Int.zpow_le_iff_le_log (b := 2) (by decide) hq
  -- The guess is the logarithm or one more.
  have hlow : ((Nat.log2 num : Int) - Nat.log2 den) - 1 ≤ Int.log 2 (num / den : ℚ) := by
    rw [← hle, le_div_iff₀ hd]
    calc (2 : ℚ) ^ ((Nat.log2 num : Int) - Nat.log2 den - 1) * den
        ≤ 2 ^ ((Nat.log2 num : Int) - Nat.log2 den - 1) * 2 ^ ((Nat.log2 den : Int) + 1) := by
          have := (log2_bounds hden).2.le
          gcongr
      _ = 2 ^ (Nat.log2 num : Int) := by
          rw [← zpow_add₀ (by norm_num)]
          congr 1
          ring
      _ ≤ num := (log2_bounds hnum).1
  have hhigh : Int.log 2 (num / den : ℚ) < ((Nat.log2 num : Int) - Nat.log2 den) + 1 := by
    rw [← not_le, ← hle, not_le, div_lt_iff₀ hd]
    calc (num : ℚ) < 2 ^ ((Nat.log2 num : Int) + 1) := (log2_bounds hnum).2
      _ = 2 ^ ((Nat.log2 num : Int) - Nat.log2 den + 1) * 2 ^ (Nat.log2 den : Int) := by
          rw [← zpow_add₀ (by norm_num)]
          congr 1
          ring
      _ ≤ 2 ^ ((Nat.log2 num : Int) - Nat.log2 den + 1) * den := by
          have := (log2_bounds hden).1
          gcongr
  have hpow (k : Int) : powLeRatio num den k = true ↔ k ≤ Int.log 2 (num / den : ℚ) := by
    rw [← hle]
    exact_mod_cast zpow_le_ratio_iff hden 2 (by omega) k
  unfold leadingBit
  simp only [hpow]
  split_ifs <;> omega

end Ratio

/-! ## Rational numbers -/

/-- The double nearest to `± q`, where `q` is not negative. -/
def roundRational (negative : Bool) (q : ℚ) : Binary64 :=
  if q = 0 then .finite negative 0 leastExponent
  else
    let e := max (Int.log 2 q - 52) leastExponent
    let m := halfEven (q / 2 ^ e)
    let (m, e) := if m = 0x20000000000000 then (0x10000000000000, e + 1) else (m, e)
    if e > greatestExponent then .infinity negative else .finite negative m e

theorem ofRatio_eq (negative : Bool) (num : Nat) {den : Nat} (hden : 0 < den) :
    ofRatio negative num den = roundRational negative (num / den) := by
  have hd : (den : ℚ) ≠ 0 := by exact_mod_cast hden.ne'
  unfold ofRatio roundRational
  by_cases hnum : num = 0
  · simp [hnum]
  · have hq : (num / den : ℚ) ≠ 0 := div_ne_zero (by exact_mod_cast hnum) hd
    rw [if_neg hnum, if_neg hq, leadingBit_eq hden (Nat.pos_of_ne_zero hnum)]
    simp only [scaledQuotient_eq hden]

/-- The number that a mantissa and an exponent stand for. -/
def magnitude (m : Nat) (e : Int) : ℚ := m * 2 ^ e

/-- The normal form of doubles: all digits are used, unless the exponent is the least one. -/
structure Normal (m : Nat) (e : Int) : Prop where
  mantissa_lt : m < 2 ^ 53
  least_le : leastExponent ≤ e
  le_greatest : e ≤ greatestExponent
  full : 2 ^ 52 ≤ m ∨ e = leastExponent

/-- The numbers of the format. -/
def IsDouble : Binary64 → Prop
  | .finite _ m e => Normal m e
  | _ => True

theorem normal_zero : Normal 0 leastExponent := ⟨by decide, le_rfl, by decide, .inr rfl⟩

theorem quotient_lt (q : ℚ) {e : Int} (he : Int.log 2 q - 52 ≤ e) :
    q / 2 ^ e < 2 ^ 53 := by
  have hpow : (0 : ℚ) < 2 ^ e := by positivity
  rw [div_lt_iff₀ hpow]
  calc q < 2 ^ (Int.log 2 q + 1) := by
        exact_mod_cast Int.lt_zpow_succ_log_self (b := 2) (by decide) q
    _ ≤ 2 ^ (53 + e) := zpow_le_zpow_right₀ (by norm_num) (by omega)
    _ = 2 ^ 53 * 2 ^ e := by
      rw [zpow_add₀ (by norm_num)]
      norm_cast

theorem isDouble_roundRational (negative : Bool) {q : ℚ} (hq : 0 ≤ q) :
    (roundRational negative q).IsDouble := by
  unfold roundRational
  split_ifs with hzero
  · exact normal_zero
  have hpos : 0 < q := lt_of_le_of_ne hq (Ne.symm hzero)
  simp only
  generalize he : max (Int.log 2 q - 52) leastExponent = e
  have hle : Int.log 2 q - 52 ≤ e := by omega
  have hquotient : 0 ≤ q / 2 ^ e := by positivity
  have hupper : halfEven (q / 2 ^ e) ≤ 2 ^ 53 :=
    halfEven_le hquotient (by exact_mod_cast quotient_lt q hle)
  have hlower : 2 ^ 52 ≤ halfEven (q / 2 ^ e) ∨ e = leastExponent := by
    rcases le_or_gt (Int.log 2 q - 52) leastExponent with hleast | hgreater
    · right
      omega
    · left
      apply le_halfEven
      have hpow : (0 : ℚ) < 2 ^ e := by positivity
      have he' : (52 : Int) + e = Int.log 2 q := by omega
      rw [le_div_iff₀ hpow]
      calc ((2 ^ 52 : Nat) : ℚ) * 2 ^ e = 2 ^ ((52 : Int) + e) := by
            rw [zpow_add₀ (by norm_num)]
            norm_cast
        _ = 2 ^ Int.log 2 q := by rw [he']
        _ ≤ q := by exact_mod_cast Int.zpow_log_le_self (b := 2) (by decide) hpos
  by_cases hcarry : halfEven (q / 2 ^ e) = 0x20000000000000
  · simp only [hcarry, if_true]
    split_ifs with hlarge
    · trivial
    · exact ⟨by norm_num, by omega, by omega, .inl (by norm_num)⟩
  · simp only [hcarry, if_false]
    split_ifs with hlarge
    · trivial
    · exact ⟨by omega, by omega, by omega, hlower⟩

/-! ## Scientific numerals -/

/-- The absolute value of a numeral. -/
def numeralValue (s : Scientific) : ℚ := s.coefficient * 10 ^ s.exponent

/-- About the exponent of the leading digit of a numeral, by which very large and very small ones
are recognized. -/
def decade (s : Scientific) : Int :=
  s.exponent + (Nat.log2 s.coefficient : Int) * 30103 / 100000

theorem ofScientific_eq {s : Scientific} (hlow : -400 ≤ decade s) (hhigh : decade s ≤ 400) :
    ofScientific s = roundRational s.negative (numeralValue s) := by
  unfold ofScientific numeralValue
  by_cases hzero : s.coefficient = 0
  · simp [hzero, roundRational]
  unfold decade at hlow hhigh
  simp only [hzero, gt_iff_lt, not_lt.2 hlow, not_lt.2 hhigh, if_false]
  rcases lt_or_ge s.exponent 0 with hneg | hnonneg
  · have hden : 0 < Nat.pow 10 (-s.exponent).toNat := Nat.pow_pos (by omega)
    rw [if_pos hneg, ofRatio_eq _ _ hden]
    obtain ⟨n, hn⟩ : ∃ n : Nat, s.exponent = -n := ⟨(-s.exponent).toNat, by omega⟩
    rw [hn, neg_neg, Int.toNat_natCast, zpow_neg, zpow_natCast]
    push_cast [Nat.pow_eq]
    rw [div_eq_mul_inv]
  · rw [if_neg (not_lt.2 hnonneg), ofRatio_eq _ _ (by omega)]
    obtain ⟨n, hn⟩ := Int.eq_ofNat_of_zero_le hnonneg
    rw [hn, Int.toNat_natCast, zpow_natCast]
    push_cast [Nat.pow_eq]
    rw [div_one]

/-- A numeral that is read as a number other than zero is rounded by its value. -/
theorem roundRational_of_ofScientific {s : Scientific} {negative : Bool} {m : Nat} {e : Int}
    (hm : 0 < m) (h : ofScientific s = .finite negative m e) :
    roundRational s.negative (numeralValue s) = .finite negative m e := by
  by_cases hrange : -400 ≤ decade s ∧ decade s ≤ 400
  · rw [← ofScientific_eq hrange.1 hrange.2, h]
  · exfalso
    unfold ofScientific at h
    unfold decade at hrange
    simp only at h
    split_ifs at h
    · cases h
      omega
    · cases h
      omega
    all_goals omega

theorem isDouble_ofRatio (negative : Bool) (num : Nat) {den : Nat} (hden : 0 < den) :
    (ofRatio negative num den).IsDouble := by
  rw [ofRatio_eq negative num hden]
  exact isDouble_roundRational negative (by positivity)

theorem isDouble_ofScientific (s : Scientific) : (ofScientific s).IsDouble := by
  unfold ofScientific
  simp only
  split_ifs
  · exact normal_zero
  · trivial
  · exact normal_zero
  · exact isDouble_ofRatio _ _ (Nat.pow_pos (by omega))
  · exact isDouble_ofRatio _ _ (by omega)

theorem isDouble_ofInt? {n : Int} {x : Binary64} (h : ofInt? n = some x) : x.IsDouble := by
  have hratio := isDouble_ofRatio (n < 0) n.natAbs Nat.one_pos
  unfold ofInt? at h
  split at h
  · cases h
  · rw [Option.some.injEq] at h
    exact h ▸ hratio

theorem isDouble_read? {cs : List Char} {x : Binary64} (h : read? cs = some x) : x.IsDouble := by
  obtain ⟨plain, -, h⟩ := Option.bind_eq_some_iff.1 h
  split at h
  · cases h
    exact isDouble_ofScientific _
  · simp only at h
    split_ifs at h
    · cases h
      trivial
    · cases h
      trivial

/-! ## Neighbourhoods -/

section Near

variable {m : Nat} {e : Int} {q : ℚ}

/-- A number that is close to a double, divided by the power of two of the double. -/
theorem quotient_near (hnear : |q - magnitude m e| < magnitude m e / 2 ^ 54) :
    (m : ℚ) - m / 2 ^ 54 < q / 2 ^ e ∧ q / 2 ^ e < m + m / 2 ^ 54 := by
  have hpow : (0 : ℚ) < 2 ^ e := by positivity
  rw [abs_lt] at hnear
  unfold magnitude at hnear
  rw [lt_div_iff₀ hpow, div_lt_iff₀ hpow]
  constructor
  · have := hnear.1
    field_simp at this ⊢
    linarith
  · have := hnear.2
    field_simp at this ⊢
    linarith

/-- What a number is rounded to if its scale is that of the double. -/
theorem roundRational_of_scale (negative : Bool) (hq : q ≠ 0) (h : Normal m e)
    (hscale : max (Int.log 2 q - 52) leastExponent = e) (hm : halfEven (q / 2 ^ e) = m) :
    roundRational negative q = .finite negative m e := by
  have hmantissa := h.mantissa_lt
  have hgreatest := h.le_greatest
  have hcarry : ¬ m = 0x20000000000000 := by omega
  have hlarge : ¬ greatestExponent < e := by omega
  simp only [roundRational, hq, hscale, hm, hcarry, hlarge, if_false]

/-- Just below a power of two the scale is that of the double before it. -/
theorem roundRational_of_lower_scale (negative : Bool) (hq : q ≠ 0) (he : e ≤ greatestExponent)
    (hscale : max (Int.log 2 q - 52) leastExponent = e - 1)
    (hm : halfEven (q / 2 ^ (e - 1)) = 0x20000000000000) :
    roundRational negative q = .finite negative 0x10000000000000 e := by
  have hlarge : ¬ greatestExponent < e := by omega
  simp only [roundRational, hq, hscale, hm, hlarge, if_true, if_false, sub_add_cancel]

/-- The scale of a number, measured by a power of two. -/
theorem log_lt_iff (hq : 0 < q) (e k : Int) : Int.log 2 q < k ↔ q / 2 ^ e < 2 ^ (k - e) := by
  have hpow : (0 : ℚ) < 2 ^ e := by positivity
  rw [div_lt_iff₀ hpow, ← zpow_add₀ (by norm_num), sub_add_cancel]
  exact_mod_cast (Int.lt_zpow_iff_log_lt (b := 2) (by decide) hq).symm

theorem Normal.cast_le (h : Normal m e) : (m : ℚ) ≤ 2 ^ 53 - 1 := by
  have hle : m + 1 ≤ 2 ^ 53 := h.mantissa_lt
  have hcast : ((m + 1 : Nat) : ℚ) ≤ (2 ^ 53 : Nat) := Nat.cast_le.2 hle
  push_cast at hcast
  linarith

/-- A number that is just below the power of two that a double is. -/
theorem roundRational_below_power (negative : Bool) (hleast : leastExponent < e)
    (hgreatest : e ≤ greatestExponent) (hq : 0 < q)
    (hlow : (2 : ℚ) ^ 52 - 2 ^ 52 / 2 ^ 54 < q / 2 ^ e) (hbelow : q / 2 ^ e < 2 ^ 52) :
    roundRational negative q = .finite negative 0x10000000000000 e := by
  have hdouble : q / 2 ^ (e - 1) = 2 * (q / 2 ^ e) := by
    rw [zpow_sub_one₀ (by norm_num)]
    field_simp
  have habove : Int.log 2 q < 52 + e := by
    rw [log_lt_iff hq e, add_sub_cancel_right]
    exact_mod_cast hbelow
  have hbeyond : ¬ Int.log 2 q < 51 + e := by
    rw [log_lt_iff hq e, add_sub_cancel_right, not_lt]
    calc (2 : ℚ) ^ (51 : Int) = 2 ^ 51 := by norm_cast
      _ ≤ q / 2 ^ e := by linarith
  apply roundRational_of_lower_scale negative hq.ne' hgreatest
  · omega
  · rw [hdouble]
    apply halfEven_eq (by positivity)
    · push_cast
      linarith
    · push_cast
      linarith

/-- A number is rounded to a double if it is closer to it than half the distance of doubles. -/
theorem roundRational_near (negative : Bool) (h : Normal m e) (hm : 0 < m)
    (hnear : |q - magnitude m e| < magnitude m e / 2 ^ 54) :
    roundRational negative q = .finite negative m e := by
  have hpow : (0 : ℚ) < 2 ^ e := by positivity
  have hone : (1 : ℚ) ≤ m := by exact_mod_cast hm
  have hcast := h.cast_le
  obtain ⟨hlow, hhigh⟩ := quotient_near hnear
  have hhalf : (m : ℚ) / 2 ^ 54 < 1 / 2 := by
    rw [div_lt_iff₀ (by norm_num)]
    linarith
  have hpos : 0 < q := by
    have hquotient : 0 < q / 2 ^ e := by linarith
    rwa [div_pos_iff_of_pos_right hpow] at hquotient
  have hround : halfEven (q / 2 ^ e) = m :=
    halfEven_eq (by positivity) (by linarith) (by linarith)
  have habove : Int.log 2 q < 53 + e := by
    rw [log_lt_iff hpos e, add_sub_cancel_right]
    calc q / 2 ^ e < 2 ^ 53 := by linarith
      _ = 2 ^ (53 : Int) := by norm_cast
  by_cases hscale : max (Int.log 2 q - 52) leastExponent = e
  · exact roundRational_of_scale negative hpos.ne' h hscale hround
  -- With another scale, the double is a power of two and the number is below it.
  have hleast := h.least_le
  have hfull : 2 ^ 52 ≤ m := h.full.resolve_right (by omega)
  have hbelow : q / 2 ^ e < 2 ^ 52 := by
    have hlt := (log_lt_iff hpos e (52 + e)).1 (by omega)
    rw [add_sub_cancel_right] at hlt
    exact_mod_cast hlt
  have hpower : m = 2 ^ 52 := by
    by_contra hne
    have hmore : 2 ^ 52 + 1 ≤ m := by omega
    have hmore' : ((2 ^ 52 + 1 : Nat) : ℚ) ≤ m := Nat.cast_le.2 hmore
    push_cast at hmore'
    linarith
  subst hpower
  push_cast at hlow
  exact roundRational_below_power negative (by omega) h.le_greatest hpos hlow hbelow

end Near

end Binary64
end RecordQuery.Number
