import RecordQuery.Proofs.Literals
import RecordQuery.Proofs.Rounding

/-!
# The shortest decimals of doubles

A double is written with the fewest digits that are read as it.

* `Binary64.ofScientific_eighteen`: eighteen digits are always enough.
* `Binary64.roundRational_shortest`: the decimal that is written is rounded to the double.
* `Binary64.isNumeral_chars`: the text of a double is a numeral of that decimal.
* `Binary64.chars_injective`: no two finite doubles have the same text.
-/

namespace RecordQuery.Number.Binary64

/-! ## Scales -/

theorem ratio_eq (m : Nat) (e : Int) :
    0 < (ratio m e).2 ∧ ((ratio m e).1 / (ratio m e).2 : ℚ) = magnitude m e := by
  unfold ratio magnitude
  rcases lt_or_ge e 0 with he | he
  · obtain ⟨n, rfl⟩ : ∃ n : Nat, e = -n := ⟨(-e).toNat, by omega⟩
    rw [if_pos he, neg_neg, Int.toNat_natCast, zpow_neg, zpow_natCast]
    refine ⟨Nat.pow_pos (by omega), ?_⟩
    push_cast [Nat.pow_eq]
    rw [div_eq_mul_inv]
  · obtain ⟨n, rfl⟩ := Int.eq_ofNat_of_zero_le he
    rw [if_neg (not_lt.2 he), Int.toNat_natCast, zpow_natCast]
    refine ⟨by omega, ?_⟩
    push_cast [Nat.pow_eq]
    rw [div_one]

theorem tenPowLeRatio_iff {num den : Nat} (hden : 0 < den) (k : Int) :
    tenPowLeRatio num den k = true ↔ (10 : ℚ) ^ k ≤ num / den := by
  exact_mod_cast zpow_le_ratio_iff hden 10 (by omega) k

/-- The exponent of the leading decimal digit is guessed from that of the leading binary one. -/
def guess (bit : Int) : Int := bit * 30103 / 100000

/-- The guess is off by one at most. -/
def guesses (bit : Int) : Bool :=
  tenPowLeRatio (ratio 1 bit).1 (ratio 1 bit).2 (guess bit - 1) &&
    !tenPowLeRatio (ratio 1 (bit + 1)).1 (ratio 1 (bit + 1)).2 (guess bit + 2)

theorem guesses_of_range {bit : Int} (hlow : -1074 ≤ bit) (hhigh : bit ≤ 1023) :
    (10 : ℚ) ^ (guess bit - 1) ≤ 2 ^ bit ∧ (2 : ℚ) ^ (bit + 1) < 10 ^ (guess bit + 2) := by
  have hall : ((List.range 2098).all fun (i : Nat) => guesses (i - 1074)) = true := by
    decide +kernel
  have hguesses : guesses bit = true := by
    have h := List.all_eq_true.1 hall (bit + 1074).toNat (List.mem_range.2 (by omega))
    rwa [Int.toNat_of_nonneg (by omega), add_sub_cancel_right] at h
  simp only [guesses, Bool.and_eq_true, Bool.not_eq_true', ← Bool.not_eq_true] at hguesses
  rw [tenPowLeRatio_iff (ratio_eq 1 _).1, tenPowLeRatio_iff (ratio_eq 1 _).1, (ratio_eq 1 _).2,
    (ratio_eq 1 _).2, magnitude, magnitude, Nat.cast_one, one_mul, one_mul, not_le] at hguesses
  exact hguesses

/-- The leading decimal digit of a positive number that a double can have. -/
theorem leadingDigit_spec {num den : Nat} (hnum : 0 < num) (hden : 0 < den)
    (hlow : -1074 ≤ Int.log 2 (num / den : ℚ)) (hhigh : Int.log 2 (num / den : ℚ) ≤ 1023) :
    ((10 : ℚ) ^ leadingDigit num den ≤ num / den ∧
      (num / den : ℚ) < 10 ^ (leadingDigit num den + 1)) ∧
      -330 ≤ leadingDigit num den ∧ leadingDigit num den ≤ 310 := by
  have hq : (0 : ℚ) < num / den := by positivity
  obtain ⟨hbelow, habove⟩ := guesses_of_range hlow hhigh
  have hself : (2 : ℚ) ^ Int.log 2 (num / den : ℚ) ≤ num / den := by
    exact_mod_cast Int.zpow_log_le_self (b := 2) (by decide) hq
  have hnext : (num / den : ℚ) < 2 ^ (Int.log 2 (num / den : ℚ) + 1) := by
    exact_mod_cast Int.lt_zpow_succ_log_self (b := 2) (by decide) (num / den : ℚ)
  have hrange : -330 ≤ guess (Int.log 2 (num / den : ℚ)) - 1 ∧
      guess (Int.log 2 (num / den : ℚ)) + 1 ≤ 310 := by
    unfold guess
    omega
  unfold leadingDigit
  rw [leadingBit_eq hden hnum]
  change _ ∧ _
  simp only [show Int.log 2 (num / den : ℚ) * 30103 / 100000
    = guess (Int.log 2 (num / den : ℚ)) from rfl]
  generalize guess (Int.log 2 (num / den : ℚ)) = g at *
  have hfirst : tenPowLeRatio num den (g + 1) = true ↔ _ := tenPowLeRatio_iff hden (g + 1)
  have hsecond : tenPowLeRatio num den g = true ↔ _ := tenPowLeRatio_iff hden g
  split_ifs with hmore hsame
  · refine ⟨⟨hfirst.1 hmore, ?_⟩, by omega⟩
    rw [add_assoc]
    exact hnext.trans habove
  · exact ⟨⟨hsecond.1 hsame, not_le.1 (mt hfirst.2 hmore)⟩, by omega⟩
  · refine ⟨⟨hbelow.trans hself, ?_⟩, by omega⟩
    rw [sub_add_cancel]
    exact not_le.1 (mt hsecond.2 hsame)

/-! ## Digits that are enough -/

theorem gridFloor_eq {num den : Nat} (k : Int) :
    (gridFloor num den k).1 = ⌊(num / den : ℚ) / 10 ^ k⌋₊ := by
  unfold gridFloor
  rcases lt_or_ge k 0 with hk | hk
  · have hscaled : (num / den : ℚ) / (10 : Nat) ^ k = _ := div_zpow_of_neg 10 hk
    rw [Nat.cast_ofNat] at hscaled
    rw [hscaled, Nat.floor_div_eq_div]
    simp only [hk, if_true]
  · have hscaled : (num / den : ℚ) / (10 : Nat) ^ k = _ := div_zpow_of_nonneg 10 hk
    rw [Nat.cast_ofNat] at hscaled
    rw [hscaled, Nat.floor_div_eq_div]
    simp only [not_lt.2 hk, if_false]

section Shortest

variable {m : Nat} {e : Int} (h : Normal m e) (hm : 0 < m)

include h hm

/-- The exponent of the leading decimal digit. -/
theorem Normal.lead_spec {lead : Int} (hlead : leadingDigit (ratio m e).1 (ratio m e).2 = lead) :
    ((10 : ℚ) ^ lead ≤ magnitude m e ∧ magnitude m e < 10 ^ (lead + 1)) ∧
      -330 ≤ lead ∧ lead ≤ 310 := by
  obtain ⟨hden, hratio⟩ := ratio_eq m e
  have hpow : (0 : ℚ) < 2 ^ e := by positivity
  have hpos : 0 < magnitude m e := by
    unfold magnitude
    positivity
  have hnum : 0 < (ratio m e).1 := by
    rcases Nat.eq_zero_or_pos (ratio m e).1 with hzero | hnum
    · rw [← hratio, hzero, Nat.cast_zero, zero_div] at hpos
      exact absurd hpos (lt_irrefl _)
    · exact hnum
  have hlow : e ≤ Int.log 2 (magnitude m e) := by
    rw [← Int.zpow_le_iff_le_log (b := 2) (by decide) hpos, magnitude]
    exact_mod_cast le_mul_of_one_le_left hpow.le (by exact_mod_cast hm)
  have hhigh : Int.log 2 (magnitude m e) < 53 + e := by
    rw [← Int.lt_zpow_iff_log_lt (b := 2) (by decide) hpos, magnitude, Nat.cast_ofNat,
      zpow_add₀ (by norm_num)]
    have hmantissa : (m : ℚ) < 2 ^ (53 : Int) := by exact_mod_cast h.mantissa_lt
    exact mul_lt_mul_of_pos_right hmantissa hpow
  have hleast : -1074 ≤ e := h.least_le
  have hgreatest : e ≤ 971 := h.le_greatest
  have hspec := leadingDigit_spec hnum hden (by rw [hratio]; omega) (by rw [hratio]; omega)
  rw [hratio, hlead] at hspec
  exact hspec

/-- Eighteen digits are read as the double. -/
theorem ofScientific_eighteen {lead : Int}
    (hlead : leadingDigit (ratio m e).1 (ratio m e).2 = lead) :
    ofScientific ⟨false, (gridFloor (ratio m e).1 (ratio m e).2 (lead + 1 - 18)).1, lead + 1 - 18⟩
      = .finite false m e := by
  obtain ⟨⟨hlow, hhigh⟩, hrange⟩ := h.lead_spec hm hlead
  generalize hk : lead + 1 - 18 = k
  have hten : (0 : ℚ) < 10 ^ k := by positivity
  rw [gridFloor_eq, (ratio_eq m e).2]
  have hfloor := Nat.floor_le (a := magnitude m e / 10 ^ k) (by unfold magnitude; positivity)
  have hceil := Nat.lt_floor_add_one (magnitude m e / 10 ^ k)
  rw [le_div_iff₀ hten] at hfloor
  rw [div_lt_iff₀ hten, add_mul, one_mul] at hceil
  have hdigits : ⌊magnitude m e / 10 ^ k⌋₊ < 2 ^ 60 := by
    have hbound : magnitude m e / 10 ^ k < 10 ^ 18 := by
      rw [div_lt_iff₀ hten]
      calc magnitude m e < 10 ^ (lead + 1) := hhigh
        _ = 10 ^ (18 : Int) * 10 ^ k := by
          rw [← zpow_add₀ (by norm_num)]
          congr 1
          omega
        _ = 10 ^ 18 * 10 ^ k := by norm_cast
    have hlt : (⌊magnitude m e / 10 ^ k⌋₊ : ℚ) < (10 ^ 18 : Nat) := by
      push_cast
      exact lt_of_le_of_lt (Nat.floor_le (by unfold magnitude; positivity)) hbound
    have hnat := Nat.cast_lt.1 hlt
    omega
  generalize ⌊magnitude m e / 10 ^ k⌋₊ = d at *
  have hlog : d.log2 < 60 := by
    rcases Nat.eq_zero_or_pos d with rfl | hd
    · decide
    · exact (Nat.log2_lt hd.ne').2 hdigits
  rw [ofScientific_eq (by unfold decade; simp only; omega) (by unfold decade; simp only; omega)]
  apply roundRational_near false h hm
  -- The distance is below one unit of the last of eighteen digits.
  have hunit : (10 : ℚ) ^ k * 10 ^ 17 ≤ magnitude m e := by
    calc (10 : ℚ) ^ k * 10 ^ 17 = 10 ^ k * 10 ^ (17 : Int) := by norm_cast
      _ = 10 ^ lead := by
        rw [← zpow_add₀ (by norm_num)]
        congr 1
        omega
      _ ≤ magnitude m e := hlow
  unfold numeralValue
  rw [abs_sub_comm, abs_of_nonneg (by linarith), lt_div_iff₀ (by norm_num)]
  linarith

/-- A search that reaches eighteen digits finds a decimal that is read as the double. -/
theorem shortestOn_readsBack {lead : Int}
    (hlead : leadingDigit (ratio m e).1 (ratio m e).2 = lead) {fuel digits : Nat}
    (hdigits : digits ≤ 18) (hfuel : 18 < digits + fuel) :
    ofScientific ⟨false, (shortestOn m e lead fuel digits).1, (shortestOn m e lead fuel digits).2⟩
      = .finite false m e := by
  induction fuel generalizing digits with
  | zero => omega
  | succ fuel ih =>
    have heighteen := ofScientific_eighteen h hm hlead
    have hnext (hlow : ¬ ofScientific ⟨false, (gridFloor (ratio m e).1 (ratio m e).2
        (lead + 1 - digits)).1, lead + 1 - digits⟩ = .finite false m e) : digits + 1 ≤ 18 := by
      rcases Nat.lt_or_ge digits 18 with hlt | hge
      · exact hlt
      · obtain rfl : digits = 18 := by omega
        exact absurd heighteen hlow
    unfold shortestOn
    simp only [beq_iff_eq]
    split_ifs with hboth _ _ _ hlow hhigh
    · exact hboth.1
    · exact hboth.2
    · exact hboth.1
    · exact hboth.2
    · exact hlow
    · exact hhigh
    · exact ih (hnext hlow) (by omega)

end Shortest

theorem dropZeros_value (fuel d : Nat) (k : Int) :
    ((dropZeros fuel d k).1 * 10 ^ (dropZeros fuel d k).2 : ℚ) = d * 10 ^ k := by
  induction fuel generalizing d k with
  | zero => rfl
  | succ fuel ih =>
    unfold dropZeros
    by_cases hzero : d % 10 = 0 ∧ d ≠ 0
    · have hsplit : (d : ℚ) = (d / 10 : Nat) * 10 := by
        have := Nat.div_add_mod d 10
        exact_mod_cast (by omega : d = d / 10 * 10)
      rw [if_pos hzero, ih, hsplit, zpow_add₀ (by norm_num), zpow_one]
      ring
    · rw [if_neg hzero]

/-- The value of the decimal that is written for a positive double. -/
def shortestValue (m : Nat) (e : Int) : ℚ := (shortest m e).1 * 10 ^ (shortest m e).2

/-- The shortest decimal of a double is rounded to it. -/
theorem roundRational_shortest {m : Nat} {e : Int} (h : Normal m e) (hm : 0 < m) :
    roundRational false (shortestValue m e) = .finite false m e := by
  have hread := shortestOn_readsBack h hm rfl (by omega : 1 ≤ 18) (by omega : 18 < 1 + 20)
  have hround := roundRational_of_ofScientific hm hread
  have hvalue : shortestValue m e = _ := dropZeros_value 400 _ _
  rw [hvalue]
  exact hround

/-! ## Texts -/

/-- A text that is read as a numeral with that sign and value. -/
def IsNumeral (negative : Bool) (q : ℚ) (cs : List Char) : Prop :=
  ∃ s, readScientific cs = some s ∧ s.negative = negative ∧ numeralValue s = q

theorem IsNumeral.unique {negative negative' : Bool} {q q' : ℚ} {cs : List Char}
    (h : IsNumeral negative q cs) (h' : IsNumeral negative' q' cs) :
    negative = negative' ∧ q = q' := by
  obtain ⟨s, hs, rfl, rfl⟩ := h
  obtain ⟨s', hs', rfl, rfl⟩ := h'
  rw [hs, Option.some.injEq] at hs'
  rw [hs']
  exact ⟨rfl, rfl⟩

theorem readExponent_exponentChars (n : Int) : readExponent ('e' :: exponentChars n) = some n := by
  have hdigits : readNat (padded 2 n.natAbs) = some n.natAbs :=
    readNat_of_digitsFrom (padded_ne_nil _ _) (digitsFrom_padded _ _)
  unfold exponentChars
  by_cases h : n < 0
  · simp only [h, if_true, readExponent, splitSign, hdigits, Option.map_some, true_or]
    congr 1
    omega
  · simp only [h, if_false, readExponent, splitSign, hdigits, Option.map_some, true_or, if_true,
      Bool.false_eq_true]
    congr 1
    omega

theorem exponential_eq {digits : List Char} (hne : digits ≠ []) (exponent : Int) :
    exponential digits exponent
      = Decimal.mantissa digits ++ 'e' :: exponentChars exponent := by
  rcases digits with _ | ⟨d, _ | ⟨d', rest⟩⟩
  · exact absurd rfl hne
  · rfl
  · rfl

section Digits

variable {ds : List Char} {c : Nat} (hdigits : ∀ d ∈ ds, isAsciiDigit d = true)
  (hvalue : digitsFrom 0 ds = some c) (hne : ds ≠ [])

include hdigits hvalue hne

theorem isNumeral_exponential (negative : Bool) {lead k : Int} (hlead : lead = k + ds.length - 1) :
    IsNumeral negative (c * 10 ^ k) (signed negative (exponential ds lead)) := by
  have htail : ∀ d ∈ ('e' :: exponentChars lead).head?, isAsciiDigit d = false ∧ d ≠ '.' := by
    intro d hd
    cases hd
    decide
  rw [exponential_eq hne]
  exact ⟨_, Decimal.readScientific_mantissa hdigits hvalue hne htail
    (readExponent_exponentChars lead) negative hlead, rfl, rfl⟩

/-- Digits with zeros behind them up to the point, and one after it. -/
theorem isNumeral_whole (negative : Bool) (zeros : Nat) :
    IsNumeral negative (c * 10 ^ zeros)
      (signed negative (ds ++ List.replicate zeros '0' ++ '.' :: ['0'])) := by
  have hwhole : ∀ d ∈ ds ++ List.replicate zeros '0', isAsciiDigit d = true := by
    intro d hd
    rcases List.mem_append.1 hd with hd | hd
    · exact hdigits d hd
    · rw [(List.mem_replicate.1 hd).2]
      decide
  have hfraction : ∀ d ∈ ['0'], isAsciiDigit d = true := by
    simp
    decide
  have hall : digitsFrom 0 (ds ++ List.replicate zeros '0' ++ ['0'])
      = some (c * 10 ^ (zeros + 1)) := by
    have hzeros := digitsFrom_zeros c (zeros + 1) []
    rw [List.append_assoc, digitsFrom_append, hvalue, Option.bind_some]
    rw [List.append_nil, List.replicate_succ'] at hzeros
    exact hzeros
  have hread := readScientific_point hwhole (List.append_ne_nil_of_left_ne_nil hne _) noTail_nil rfl
    negative hfraction hall
  rw [List.append_nil] at hread
  refine ⟨_, hread, rfl, ?_⟩
  simp only [numeralValue, List.length_singleton]
  push_cast
  rw [pow_succ, zpow_neg_one]
  field_simp

theorem isNumeral_positional (negative : Bool) {point k : Int} (hpoint : point = k + ds.length) :
    IsNumeral negative (c * 10 ^ k) (signed negative (positional ds point)) := by
  unfold positional
  by_cases hleft : point ≤ 0
  · rw [if_pos hleft]
    refine ⟨_, Decimal.readScientific_zeros hdigits hvalue negative (-point).toNat, rfl, ?_⟩
    simp only [numeralValue]
    congr 2
    omega
  rw [if_neg hleft]
  by_cases hempty : (ds.drop point.toNat).isEmpty = true
  · have hlong : ds.length ≤ point.toNat := by
      rwa [List.isEmpty_iff, List.drop_eq_nil_iff] at hempty
    have hzeros : k = ((point.toNat - ds.length : Nat) : Int) := by omega
    simp only [hempty, if_true, List.take_of_length_le hlong]
    rw [hzeros, zpow_natCast]
    exact isNumeral_whole hdigits hvalue hne negative _
  · have hshort : point.toNat < ds.length := by
      rw [List.isEmpty_iff, List.drop_eq_nil_iff] at hempty
      omega
    have hzeros : point.toNat - (ds.take point.toNat).length = 0 := by
      rw [List.length_take]
      omega
    simp only [hempty, hzeros, List.replicate_zero, List.append_nil]
    refine ⟨_, Decimal.readScientific_split hdigits hvalue hne negative (by omega), rfl, ?_⟩
    simp only [numeralValue]
    congr 2
    omega

end Digits

/-- The text of a positive or negative number is a numeral of its shortest decimal. -/
theorem isNumeral_chars (negative : Bool) {m : Nat} (hm : 0 < m) (e : Int) :
    IsNumeral negative (shortestValue m e) (chars (.finite negative m e)) := by
  have hdigits : ∀ d ∈ natDigits (shortest m e).1, isAsciiDigit d = true := fun d hd =>
    isAsciiDigit_of_mem_natDigits hd
  have hvalue : digitsFrom 0 (natDigits (shortest m e).1) = some (shortest m e).1 := by
    rw [digitsFrom_natDigits]
    simp
  have hne := natDigits_ne_nil (shortest m e).1
  unfold chars shortestValue
  simp only [hm.ne', if_false]
  split
  · exact isNumeral_exponential hdigits hvalue hne negative rfl
  · exact isNumeral_positional hdigits hvalue hne negative (by omega)

theorem isNumeral_zero (negative : Bool) (e : Int) :
    IsNumeral negative 0 (chars (.finite negative 0 e)) := by
  have hread : readScientific (signed negative "0.0".toList) = some ⟨negative, 0, -1⟩ := by
    cases negative <;> decide
  exact ⟨_, hread, rfl, by simp [numeralValue]⟩

theorem shortestValue_ne_zero {m : Nat} {e : Int} (h : Normal m e) (hm : 0 < m) :
    shortestValue m e ≠ 0 := by
  intro hzero
  have hround := roundRational_shortest h hm
  rw [hzero, roundRational, if_pos rfl, finite.injEq] at hround
  omega

/-- No two finite doubles have the same text. -/
theorem chars_injective {n n' : Bool} {m m' : Nat} {e e' : Int} (h : Normal m e)
    (h' : Normal m' e') (heq : chars (.finite n m e) = chars (.finite n' m' e')) :
    finite n m e = finite n' m' e' := by
  have hleast {m : Nat} {e : Int} (h : Normal m e) (hm : m = 0) : e = leastExponent :=
    h.full.resolve_left (by omega)
  rcases Nat.eq_zero_or_pos m with hm | hm <;> rcases Nat.eq_zero_or_pos m' with hm' | hm'
  · rw [hleast h hm, hleast h' hm', hm, hm'] at heq ⊢
    rw [((isNumeral_zero n _).unique (heq ▸ isNumeral_zero n' _)).1]
  · subst hm
    have hvalue := ((isNumeral_zero n e).unique (heq ▸ isNumeral_chars n' hm' e')).2
    exact absurd hvalue.symm (shortestValue_ne_zero h' hm')
  · subst hm'
    have hvalue := ((isNumeral_chars n hm e).unique (heq ▸ isNumeral_zero n' e')).2
    exact absurd hvalue (shortestValue_ne_zero h hm)
  · obtain ⟨rfl, hvalue⟩ := (isNumeral_chars n hm e).unique (heq ▸ isNumeral_chars n' hm' e')
    have hround := roundRational_shortest h hm
    rw [hvalue, roundRational_shortest h' hm', finite.injEq] at hround
    obtain ⟨-, rfl, rfl⟩ := hround
    rfl

end RecordQuery.Number.Binary64
