import RecordQuery.Proofs.JsonText
import RecordQuery.Proofs.Overflow

/-!
# Floating numbers in JSON are read back

A double is written with the digits of its shortest decimal, and a JSON reader takes these digits
for a decimal of the same value, which is rounded to the double.

* `Binary64.ofScientific_of_value`: a numeral of moderate length with the value of a shortest
  decimal is read as the double.
* `Json.Floats`: a text that a JSON reader takes for a floating number of that value.
* `Json.read?_floatChars`: the text of every double is read as it.
-/

namespace RecordQuery

open RecordQuery.Number

namespace Number.Binary64

/-! ## The range of shortest decimals -/

theorem two_pow_le (n : Nat) : 2 ^ n ≤ 10 ^ (30103 * n / 100000 + 1) :=
  pow_le_pow_div (by decide) (by decide +kernel) (by decide) n

theorem log2_lt_of_lt {c n : Nat} (hpos : 0 < c) (h : (c : ℚ) < 10 ^ (n : Int)) :
    Nat.log2 c < 28738 * n / 8651 + 1 := by
  rw [zpow_natCast] at h
  exact (Nat.log2_lt hpos.ne').2 (lt_of_lt_of_le (by exact_mod_cast h) (ten_pow_le n))

/-- A numeral that is not too small for doubles is recognized as such. -/
theorem le_decade {s : Scientific} (hlow : (10 : ℚ) ^ (-330 : Int) ≤ numeralValue s) :
    -400 ≤ decade s := by
  have hnext : s.coefficient < 2 ^ (Nat.log2 s.coefficient + 1) := Nat.lt_log2_self
  unfold numeralValue at hlow
  unfold decade
  generalize Nat.log2 s.coefficient = bits at *
  have hten : (s.coefficient : ℚ) < 10 ^ ((30103 * (bits + 1) / 100000 + 1 : Nat) : Int) := by
    rw [zpow_natCast]
    exact_mod_cast hnext.trans_le (two_pow_le (bits + 1))
  have hvalue : (10 : ℚ) ^ (-330 : Int)
      < 10 ^ (((30103 * (bits + 1) / 100000 + 1 : Nat) : Int) + s.exponent) := by
    rw [zpow_add₀ (by norm_num)]
    exact hlow.trans_lt (mul_lt_mul_of_pos_right hten (by positivity))
  have := (zpow_lt_zpow_iff_right₀ (by norm_num)).1 hvalue
  omega

/-- A numeral that is neither too small nor too large for doubles, and not too long, is recognized
as such. -/
theorem decade_range {s : Scientific} (hpos : 0 < s.coefficient)
    (hlog : Nat.log2 s.coefficient < 3000) (hlow : (10 : ℚ) ^ (-330 : Int) ≤ numeralValue s)
    (hhigh : numeralValue s < 10 ^ (311 : Int)) : -400 ≤ decade s ∧ decade s ≤ 400 := by
  refine ⟨le_decade hlow, ?_⟩
  have hself : 2 ^ Nat.log2 s.coefficient ≤ s.coefficient := Nat.log2_self_le hpos.ne'
  unfold numeralValue at hhigh
  unfold decade
  generalize Nat.log2 s.coefficient = bits at *
  have hten : ((10 : ℚ) ^ ((bits * 30103 / 100000 : Nat) : Int)) ≤ 2 * s.coefficient := by
    rw [zpow_natCast]
    have htwo := ten_pow_le (bits * 30103 / 100000)
    have hbits : 28738 * (bits * 30103 / 100000) / 8651 + 1 ≤ bits + 1 := by omega
    have hpow : 2 ^ (28738 * (bits * 30103 / 100000) / 8651 + 1) ≤ 2 ^ (bits + 1) :=
      Nat.pow_le_pow_right (by decide) hbits
    rw [pow_succ 2 bits] at hpow
    exact_mod_cast (by omega :
      10 ^ (bits * 30103 / 100000) ≤ 2 * s.coefficient)
  have hvalue : (10 : ℚ) ^ (((bits * 30103 / 100000 : Nat) : Int) + s.exponent)
      < 10 ^ (312 : Int) := by
    rw [zpow_add₀ (by norm_num)]
    calc (10 : ℚ) ^ ((bits * 30103 / 100000 : Nat) : Int) * 10 ^ s.exponent
        ≤ 2 * s.coefficient * 10 ^ s.exponent := by gcongr
      _ = 2 * (s.coefficient * 10 ^ s.exponent) := by ring
      _ < 2 * 10 ^ (311 : Int) := by linarith
      _ ≤ 10 * 10 ^ (311 : Int) := mul_le_mul_of_nonneg_right (by norm_num) (by positivity)
      _ = 10 ^ (312 : Int) := by
        rw [← zpow_one_add₀ (by norm_num)]
        norm_num
  have := (zpow_lt_zpow_iff_right₀ (by norm_num)).1 hvalue
  omega

/-- A number that is rounded to a double other than zero is not too small. -/
theorem le_of_roundRational {q : ℚ} {m : Nat} {e : Int} (hq : 0 ≤ q) (hm : 0 < m)
    (h : roundRational false q = .finite false m e) : (10 : ℚ) ^ (-330 : Int) ≤ q := by
  by_contra hsmall
  rw [not_le] at hsmall
  have htiny : q < 2 ^ (-1075 : Int) := hsmall.trans_le (by
    rw [zpow_neg, zpow_neg]
    apply inv_anti₀ (by positivity)
    exact_mod_cast (by decide +kernel : 2 ^ 1075 ≤ 10 ^ 330))
  unfold roundRational at h
  split_ifs at h with hzero
  · simp only [finite.injEq] at h
    omega
  have hpos : 0 < q := lt_of_le_of_ne hq (Ne.symm hzero)
  have hscale : max (Int.log 2 q - 52) leastExponent = leastExponent := by
    have hlog : Int.log 2 q < -1075 := by
      rw [← Int.lt_zpow_iff_log_lt (b := 2) (by decide) hpos]
      exact_mod_cast htiny
    unfold leastExponent
    omega
  have hround : halfEven (q / 2 ^ leastExponent) = 0 := by
    apply halfEven_eq (by positivity)
    · have : 0 ≤ q / 2 ^ leastExponent := by positivity
      push_cast
      linarith
    · rw [div_lt_iff₀ (by positivity)]
      refine htiny.trans_eq ?_
      rw [show (-1075 : Int) = -1 + leastExponent by decide, zpow_add₀ (by norm_num)]
      norm_num
  simp only [hscale, hround] at h
  rw [if_neg (by decide), if_neg (by decide), finite.injEq] at h
  omega

theorem roundRational_signed {q : ℚ} {m : Nat} {e : Int} (negative : Bool)
    (h : roundRational false q = .finite false m e) :
    roundRational negative q = .finite negative m e := by
  unfold roundRational at h ⊢
  simp only at h ⊢
  split_ifs at h ⊢
  all_goals
    simp only [finite.injEq, true_and] at h ⊢
    exact h

theorem shortestOn_exponent (m : Nat) (e lead : Int) (fuel digits : Nat) :
    lead + 1 - (digits + fuel : Nat) ≤ (shortestOn m e lead fuel digits).2 := by
  induction fuel generalizing digits with
  | zero =>
    unfold shortestOn
    omega
  | succ fuel ih =>
    have hnext := ih (digits + 1)
    unfold shortestOn
    simp only
    split_ifs
    all_goals omega

theorem dropZeros_exponent (fuel d : Nat) (k : Int) : k ≤ (dropZeros fuel d k).2 := by
  induction fuel generalizing d k with
  | zero => exact le_rfl
  | succ fuel ih =>
    unfold dropZeros
    split_ifs
    · exact (Int.le_add_one le_rfl).trans (ih _ _)
    · exact le_rfl

theorem shortest_exponent {m : Nat} {e : Int} (h : Normal m e) (hm : 0 < m) :
    -350 ≤ (shortest m e).2 := by
  obtain ⟨-, hlead, -⟩ := h.lead_spec hm rfl
  have hon := shortestOn_exponent m e (leadingDigit (ratio m e).1 (ratio m e).2) 20 1
  have hdrop : (shortestOn m e (leadingDigit (ratio m e).1 (ratio m e).2) 20 1).2
      ≤ (shortest m e).2 := dropZeros_exponent 400 _ _
  omega

/-- A numeral with the value of the shortest decimal of a double is read as the double, if its
exponent is not too small. -/
theorem ofScientific_of_value {m : Nat} {e : Int} (h : Normal m e) (hm : 0 < m) {s : Scientific}
    (hvalue : numeralValue s = shortestValue m e) (hexponent : -350 ≤ s.exponent) :
    ofScientific s = .finite s.negative m e := by
  have hround := roundRational_shortest h hm
  rw [← hvalue] at hround
  have hnonneg := numeralValue_nonneg s
  have hlow := le_of_roundRational hnonneg hm hround
  have hhigh : numeralValue s < 10 ^ (311 : Int) := by
    have hfinite := (isFinite_roundRational_iff false hnonneg).1 (by rw [hround]; rfl)
    refine (hfinite.trans_le (overflowBound_le_zpow le_rfl)).trans ?_
    exact_mod_cast (by decide +kernel : 2 ^ 1024 < 10 ^ 311)
  have hpos : 0 < s.coefficient := by
    rcases Nat.eq_zero_or_pos s.coefficient with hzero | hpos
    · rw [numeralValue, hzero, Nat.cast_zero, zero_mul] at hlow
      exact absurd hlow (not_le.2 (by positivity))
    · exact hpos
  have hlength : Nat.log2 s.coefficient < 3000 := by
    have hscale : (10 : ℚ) ^ (-350 : Int) ≤ 10 ^ s.exponent :=
      zpow_le_zpow_right₀ (by norm_num) hexponent
    have hcoefficient : (s.coefficient : ℚ) * 10 ^ (-350 : Int) < 10 ^ (311 : Int) :=
      (mul_le_mul_of_nonneg_left hscale (by positivity)).trans_lt hhigh
    rw [zpow_neg, ← div_eq_mul_inv, div_lt_iff₀ (by positivity), ← zpow_add₀ (by norm_num)]
      at hcoefficient
    have hsum : (311 : Int) + 350 = (661 : Nat) := by decide
    rw [hsum] at hcoefficient
    exact (log2_lt_of_lt hpos hcoefficient).trans (by decide)
  obtain ⟨hleast, hgreatest⟩ := decade_range hpos hlength hlow hhigh
  rw [ofScientific_eq hleast hgreatest]
  exact roundRational_signed _ hround

end Number.Binary64

namespace Json

/-! ## Numbers in parts -/

/-- A JSON reader takes the text for a floating number, whose sign, value and exponent are these. -/
def Floats (negative : Bool) (q : ℚ) (least : Int) (text : List Char) : Prop :=
  ∃ s, number? text = some (.float (.ofScientific s), []) ∧ s.negative = negative ∧
    Binary64.numeralValue s = q ∧ least ≤ s.exponent

/-- Digits that a JSON reader takes for the whole part of a number: a zero only stands alone. -/
structure Whole (whole : List Char) : Prop where
  digits : ∀ c ∈ whole, isAsciiDigit c = true
  ne_nil : whole ≠ []
  zero : ∀ ds, whole = '0' :: ds → ds = []

theorem signPart_signed {c : Char} (hc : isAsciiDigit c = true) (negative : Bool)
    (cs : List Char) : signPart (Binary64.signed negative (c :: cs)) = (negative, c :: cs) := by
  cases negative with
  | true => rfl
  | false =>
    unfold Binary64.signed signPart
    split
    · rename_i h
      rw [if_neg Bool.false_ne_true] at h
      rw [(List.cons.inj h).1] at hc
      exact absurd hc (by decide)
    · rfl

theorem Whole.wholePart_append {whole : List Char} (h : Whole whole) (rest : List Char)
    (hrest : ∀ c ∈ rest.head?, isAsciiDigit c = false) :
    wholePart (whole ++ rest) = (whole, rest) := by
  have hspan := span_append isAsciiDigit whole hrest
  rw [span_all h.digits, List.nil_append] at hspan
  unfold wholePart
  split
  · rename_i tail htail
    obtain ⟨d, ds, hwhole⟩ := List.exists_cons_of_ne_nil h.ne_nil
    rw [hwhole, List.cons_append, List.cons.injEq] at htail
    rw [htail.1] at hwhole
    obtain rfl := h.zero ds hwhole
    rw [hwhole, ← htail.2]
    rfl
  · exact hspan

theorem exponentPart_exponentChars (n : Int) :
    exponentPart ('e' :: Binary64.exponentChars n) = (some n, []) := by
  have hdigits : readNat (padded 2 n.natAbs) = some n.natAbs :=
    readNat_of_digitsFrom (padded_ne_nil _ _) (digitsFrom_padded _ _)
  have hall : ∀ c ∈ padded 2 n.natAbs, isAsciiDigit c = true :=
    fun _ hc => isAsciiDigit_of_mem_padded hc
  have hspan := span_all hall
  unfold Binary64.exponentChars
  by_cases h : n < 0
  · simp only [h, if_true, exponentPart, splitSign, hspan, hdigits, true_or]
    congr 2
    omega
  · simp only [h, if_false, exponentPart, splitSign, hspan, hdigits, true_or, if_true,
      Bool.false_eq_true]
    congr 2
    omega

section Parts

variable {whole : List Char} {n : Nat} (hwhole : Whole whole) (negative : Bool)

include hwhole

/-- Digits without a point, before an exponent. -/
theorem number?_whole (hn : digitsFrom 0 whole = some n) (exponent : Int) :
    number? (Binary64.signed negative (whole ++ 'e' :: Binary64.exponentChars exponent))
      = some (.float (.ofScientific ⟨negative, n, exponent⟩), []) := by
  obtain ⟨d, ds, hcons⟩ := List.exists_cons_of_ne_nil hwhole.ne_nil
  have hsign := signPart_signed (hwhole.digits d (hcons ▸ List.mem_cons_self)) negative
    (ds ++ 'e' :: Binary64.exponentChars exponent)
  rw [← List.cons_append, ← hcons] at hsign
  have hpart := hwhole.wholePart_append ('e' :: Binary64.exponentChars exponent)
    (by simp; decide)
  have hempty : whole.isEmpty = false := by simp [hcons]
  have hdecimals : decimals ('e' :: Binary64.exponentChars exponent)
      = ([], 'e' :: Binary64.exponentChars exponent) := rfl
  simp only [number?, hsign, hpart, hdecimals, exponentPart_exponentChars, ofParts?, hempty,
    List.isEmpty_nil, Option.isNone_some, List.append_nil,
    readNat_of_digitsFrom hwhole.ne_nil hn]
  simp

/-- Digits around a point, before an exponent if there is one. -/
theorem number?_point {fraction : List Char} (hfraction : ∀ c ∈ fraction, isAsciiDigit c = true)
    (hne : fraction ≠ []) (hn : digitsFrom 0 (whole ++ fraction) = some n)
    (tail : List Char) {exponent : Option Int} (htail : ∀ c ∈ tail.head?, isAsciiDigit c = false)
    (hexponent : exponentPart tail = (exponent, [])) :
    number? (Binary64.signed negative (whole ++ '.' :: (fraction ++ tail)))
      = some (.float (.ofScientific
        ⟨negative, n, exponent.getD 0 - fraction.length⟩), []) := by
  obtain ⟨d, ds, hcons⟩ := List.exists_cons_of_ne_nil hwhole.ne_nil
  have hsign := signPart_signed (hwhole.digits d (hcons ▸ List.mem_cons_self)) negative
    (ds ++ '.' :: (fraction ++ tail))
  rw [← List.cons_append, ← hcons] at hsign
  have hpart := hwhole.wholePart_append ('.' :: (fraction ++ tail)) (by simp; decide)
  have hempty : whole.isEmpty = false := by simp [hcons]
  have hempty' : fraction.isEmpty = false := by simpa using hne
  have hspan := span_append isAsciiDigit fraction htail
  rw [span_all hfraction, List.nil_append] at hspan
  have hdecimals : decimals ('.' :: (fraction ++ tail)) = (fraction, tail) := by
    simp only [decimals, hspan, hempty', Bool.false_eq_true, if_false]
  simp only [number?, hsign, hpart, hdecimals, hexponent, ofParts?, hempty, hempty',
    readNat_of_digitsFrom (List.append_ne_nil_of_left_ne_nil hwhole.ne_nil _) hn]
  simp

end Parts

/-! ## Texts of doubles -/

section Digits

variable {ds : List Char} {c : Nat} (hds : Whole ds) (hvalue : digitsFrom 0 ds = some c)

include hds hvalue

theorem floats_exponential (negative : Bool) {lead k : Int} (hlead : lead = k + ds.length - 1) :
    Floats negative (c * 10 ^ k) k (Binary64.signed negative (Binary64.exponential ds lead)) := by
  rw [Binary64.exponential_eq hds.ne_nil]
  rcases ds with _ | ⟨d, _ | ⟨d', ds⟩⟩
  · exact absurd rfl hds.ne_nil
  · refine ⟨_, number?_whole hds negative hvalue lead, rfl, ?_, ?_⟩
    · simp [Binary64.numeralValue, hlead]
    · simp [hlead]
  · have hfirst : Whole [d] :=
      ⟨fun x hx => hds.digits x (List.mem_singleton.1 hx ▸ List.mem_cons_self), by simp, by simp⟩
    have hread := number?_point hfirst negative
      (fun x hx => hds.digits x (List.mem_cons_of_mem _ hx)) (by simp) hvalue
      ('e' :: Binary64.exponentChars lead) (by simp; decide)
      (exponentPart_exponentChars lead)
    simp only [List.length_cons] at hlead
    refine ⟨_, hread, rfl, ?_, ?_⟩
    · simp only [Binary64.numeralValue, List.length_cons, Option.getD_some]
      congr 2
      omega
    · simp only [List.length_cons, Option.getD_some]
      omega

/-- Digits behind a point and zeros. -/
theorem floats_zeros (negative : Bool) (zeros : Nat) :
    Floats negative (c * 10 ^ (-(zeros + ds.length : Nat) : Int)) (-(zeros + ds.length : Nat))
      (Binary64.signed negative ('0' :: '.' :: List.replicate zeros '0' ++ ds)) := by
  have hzero : Whole ['0'] := ⟨by simp; decide, by simp, by simp⟩
  have hfraction : ∀ d ∈ List.replicate zeros '0' ++ ds, isAsciiDigit d = true := by
    intro d hd
    rcases List.mem_append.1 hd with hd | hd
    · rw [(List.mem_replicate.1 hd).2]
      decide
    · exact hds.digits d hd
  have hall : digitsFrom 0 (['0'] ++ (List.replicate zeros '0' ++ ds)) = some c := by
    rw [List.singleton_append, ← List.cons_append, ← List.replicate_succ, digitsFrom_zeros,
      Nat.zero_mul, hvalue]
  have hread := number?_point hzero negative hfraction
    (List.append_ne_nil_of_right_ne_nil _ hds.ne_nil) hall [] (by simp) rfl
  rw [List.append_nil] at hread
  refine ⟨_, hread, rfl, ?_, ?_⟩
  · simp [Binary64.numeralValue]
  · simp

/-- Digits with zeros behind them up to the point, and one after it. -/
theorem floats_whole (hzero : ∀ rest, ds ≠ '0' :: rest) (negative : Bool) (zeros : Nat) :
    Floats negative (c * 10 ^ zeros) (-1)
      (Binary64.signed negative (ds ++ List.replicate zeros '0' ++ '.' :: ['0'])) := by
  have hwhole : Whole (ds ++ List.replicate zeros '0') := by
    refine ⟨?_, List.append_ne_nil_of_left_ne_nil hds.ne_nil _, ?_⟩
    · intro d hd
      rcases List.mem_append.1 hd with hd | hd
      · exact hds.digits d hd
      · rw [(List.mem_replicate.1 hd).2]
        decide
    · intro rest hrest
      obtain ⟨d, tail, hcons⟩ := List.exists_cons_of_ne_nil hds.ne_nil
      rw [hcons, List.cons_append, List.cons.injEq] at hrest
      exact absurd (hrest.1 ▸ hcons) (hzero tail)
  have hall : digitsFrom 0 (ds ++ List.replicate zeros '0' ++ ['0'])
      = some (c * 10 ^ (zeros + 1)) := by
    have hzeros := digitsFrom_zeros c (zeros + 1) []
    rw [List.append_assoc, digitsFrom_append, hvalue, Option.bind_some]
    rw [List.append_nil, List.replicate_succ'] at hzeros
    exact hzeros
  have hread := number?_point hwhole negative (by simp; decide) (by simp) hall [] (by simp) rfl
  rw [List.append_nil] at hread
  refine ⟨_, hread, rfl, ?_, by simp⟩
  simp only [Binary64.numeralValue, List.length_singleton, Option.getD_none]
  push_cast
  rw [pow_succ, zpow_neg_one]
  field_simp

/-- Digits with a point among them. -/
theorem floats_split (hzero : ∀ rest, ds ≠ '0' :: rest) (negative : Bool) {k : Nat} (hk : 0 < k)
    (hshort : k < ds.length) :
    Floats negative (c * 10 ^ (-(ds.length - k : Nat) : Int)) (-(ds.length - k : Nat))
      (Binary64.signed negative (ds.take k ++ '.' :: ds.drop k)) := by
  have hwhole : Whole (ds.take k) := by
    refine ⟨fun d hd => hds.digits d (List.mem_of_mem_take hd), ?_, ?_⟩
    · rw [Ne, List.take_eq_nil_iff]
      rintro (h | h)
      · omega
      · exact hds.ne_nil h
    · intro rest hrest
      refine absurd ?_ (hzero (rest ++ ds.drop k))
      rw [← List.cons_append, ← hrest, List.take_append_drop]
  have hall : digitsFrom 0 (ds.take k ++ ds.drop k) = some c := by
    rw [List.take_append_drop, hvalue]
  have hread := number?_point hwhole negative
    (fun d hd => hds.digits d (List.mem_of_mem_drop hd))
    (by rw [Ne, List.drop_eq_nil_iff]; omega) hall [] (by simp) rfl
  rw [List.append_nil, List.length_drop] at hread
  refine ⟨_, hread, rfl, ?_, ?_⟩
  · simp [Binary64.numeralValue]
  · simp

theorem floats_positional (hzero : ∀ rest, ds ≠ '0' :: rest) (negative : Bool) {point k : Int}
    (hpoint : point = k + ds.length) :
    Floats negative (c * 10 ^ k) (min k (-1))
      (Binary64.signed negative (Binary64.positional ds point)) := by
  unfold Binary64.positional
  by_cases hleft : point ≤ 0
  · rw [if_pos hleft]
    obtain ⟨s, hs, hnegative, hq, hleast⟩ := floats_zeros hds hvalue negative (-point).toNat
    have hk : (-(((-point).toNat + ds.length : Nat) : Int)) = k := by omega
    rw [hk] at hq hleast
    exact ⟨s, hs, hnegative, hq, (min_le_left _ _).trans hleast⟩
  rw [if_neg hleft]
  by_cases hempty : (ds.drop point.toNat).isEmpty = true
  · have hlong : ds.length ≤ point.toNat := by
      rwa [List.isEmpty_iff, List.drop_eq_nil_iff] at hempty
    have hzeros : k = ((point.toNat - ds.length : Nat) : Int) := by omega
    obtain ⟨s, hs, hnegative, hq, hleast⟩ :=
      floats_whole hds hvalue hzero negative (point.toNat - ds.length)
    simp only [hempty, if_true, List.take_of_length_le hlong]
    refine ⟨s, hs, hnegative, ?_, (min_le_right _ _).trans hleast⟩
    rw [hq, hzeros, zpow_natCast]
  · have hshort : point.toNat < ds.length := by
      rw [List.isEmpty_iff, List.drop_eq_nil_iff] at hempty
      omega
    have hzeros : point.toNat - (ds.take point.toNat).length = 0 := by
      rw [List.length_take]
      omega
    obtain ⟨s, hs, hnegative, hq, hleast⟩ :=
      floats_split hds hvalue hzero negative (by omega) hshort
    have hk : (-((ds.length - point.toNat : Nat) : Int)) = k := by omega
    rw [hk] at hq hleast
    simp only [hempty, hzeros, List.replicate_zero, List.append_nil]
    exact ⟨s, hs, hnegative, hq, (min_le_left _ _).trans hleast⟩

end Digits

/-- A JSON reader takes the text of a positive or negative double for its shortest decimal. -/
theorem floats_chars (negative : Bool) {m : Nat} {e : Int} (h : Binary64.Normal m e) (hm : 0 < m) :
    Floats negative (Binary64.shortestValue m e) (-350)
      (Binary64.chars (.finite negative m e)) := by
  have hexponent := Binary64.shortest_exponent h hm
  have hds : ∀ rest, natDigits (Binary64.shortest m e).1 ≠ '0' :: rest := by
    intro rest hrest
    have hvalue : Binary64.shortestValue m e = 0 := by
      rw [Binary64.shortestValue, (head_natDigits hrest).1, Nat.cast_zero, zero_mul]
    exact Binary64.shortestValue_ne_zero h hm hvalue
  have hwhole : Whole (natDigits (Binary64.shortest m e).1) :=
    ⟨fun d hd => isAsciiDigit_of_mem_natDigits hd, natDigits_ne_nil _,
      fun rest hrest => absurd hrest (hds rest)⟩
  have hvalue : digitsFrom 0 (natDigits (Binary64.shortest m e).1)
      = some (Binary64.shortest m e).1 := by
    rw [digitsFrom_natDigits]
    simp
  unfold Binary64.chars Binary64.shortestValue
  simp only [hm.ne', if_false]
  split
  · obtain ⟨s, hs, hnegative, hq, hleast⟩ := floats_exponential hwhole hvalue negative rfl
    exact ⟨s, hs, hnegative, hq, hexponent.trans hleast⟩
  · obtain ⟨s, hs, hnegative, hq, hleast⟩ := floats_positional hwhole hvalue hds negative
      (sub_add_cancel ((Binary64.shortest m e).2
        + ((natDigits (Binary64.shortest m e).1).length : Int)) 1)
    exact ⟨s, hs, hnegative, hq, (le_min hexponent (by decide)).trans hleast⟩

theorem number?_chars (negative : Bool) {m : Nat} {e : Int} (h : Binary64.Normal m e) :
    number? (Binary64.chars (.finite negative m e)) = some (.float (.finite negative m e), []) := by
  rcases Nat.eq_zero_or_pos m with rfl | hm
  · obtain rfl : e = Binary64.leastExponent := h.full.resolve_left (by decide)
    cases negative <;> rfl
  · obtain ⟨s, hs, rfl, hq, hleast⟩ := floats_chars negative h hm
    rw [hs, Binary64.ofScientific_of_value h hm hq hleast]

/-- The text of a double is read as the double. -/
theorem read?_floatChars {x : Binary64} (h : x.IsDouble) :
    read? (floatChars x) = some (.float x) := by
  cases x with
  | nan => rfl
  | infinity negative => cases negative <;> rfl
  | finite negative m e =>
    obtain ⟨-, c, cs, hc, hcs⟩ := finite_chars negative m e
    have hnumber := number?_chars negative h
    change read? (Binary64.chars (.finite negative m e)) = _
    generalize Binary64.chars (.finite negative m e) = text at hcs hnumber ⊢
    have hspace : skipSpace text = text := by
      rcases hcs with rfl | rfl
      · exact skipSpace_cons (isSpace_of_isNumberChar (isNumberChar_of_digit hc)) _
      · exact skipSpace_cons (by decide) _
    refine read?_eq_some.2 (readWith_eq_ok.2 ⟨[], ?_, rfl⟩)
    rw [hspace, value_digit hc _ _ hcs, hnumber]
    rfl

end Json
end RecordQuery
