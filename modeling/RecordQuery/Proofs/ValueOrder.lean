import Mathlib.Algebra.Order.Field.Power
import Mathlib.Tactic.FieldSimp
import Mathlib.Tactic.Ring
import RecordQuery.Coercion
import RecordQuery.Proofs.JsonForms
import RecordQuery.Proofs.Results
import RecordQuery.Proofs.RowOrder

/-!
# The order of values

Values of one kind that are no NaNs are linearly ordered: numbers by what they are, times by their
instants, texts by their characters.

* `Decimal.compare?_eq`: decimals compare like the rationals that they are, although the comparison
  does not expand their exponents.
* `Value.compare?_eq_compareRank`: values on one scale compare by their ranks, which are linearly
  ordered; so equality by value is an equivalence among them (`Value.eqv_refl`, `Value.eqv_comm`,
  `Value.eqv_trans`).
* `coerce_on`: coercion to a kind gives values on one scale.
-/

namespace RecordQuery

open Number Calendar

/-! ## Decimals -/

namespace Number.Decimal

/-- The absolute value of a finite number. -/
def magnitude (c : Nat) (e : Int) : ℚ := c * 10 ^ e

/-- The class and the value of a number: 1 for the infinity below all, 3 for that above all. -/
def rank : Decimal → ℕ × ℚ
  | .nan .. => (2, 0)
  | .infinity negative => (if negative then 1 else 3, 0)
  | .finite negative c e => (2, if negative then -magnitude c e else magnitude c e)

def isNan : Decimal → Bool
  | .nan .. => true
  | _ => false

theorem pow_length_le {c : Nat} (hc : 0 < c) : 10 ^ ((natDigits c).length - 1) ≤ c := by
  by_contra hlt
  have hpos : 0 < (natDigits c).length := List.length_pos_iff.2 (natDigits_ne_nil c)
  rcases Nat.eq_zero_or_pos ((natDigits c).length - 1) with hzero | hrest
  · rw [hzero] at hlt
    omega
  · have := length_natDigits_le hrest (Nat.lt_of_not_le hlt)
    omega

theorem lt_pow_length (c : Nat) : c < 10 ^ (natDigits c).length := by
  simpa using lt_of_digitsFrom (digitsFrom_natDigits 0 c)

theorem magnitude_pos {c : Nat} (hc : 0 < c) (e : Int) : 0 < magnitude c e := by
  unfold magnitude
  positivity

/-- A number lies between two powers of ten, by the place of its leading digit. -/
theorem magnitude_bounds {c : Nat} (hc : 0 < c) (e : Int) :
    (10 : ℚ) ^ leadingExponent c e ≤ magnitude c e ∧
      magnitude c e < 10 ^ (leadingExponent c e + 1) := by
  have hpos : 0 < (natDigits c).length := List.length_pos_iff.2 (natDigits_ne_nil c)
  have hlead : leadingExponent c e = ((natDigits c).length - 1 : ℕ) + e := by
    unfold leadingExponent
    omega
  have hnext : leadingExponent c e + 1 = ((natDigits c).length : ℕ) + e := by
    unfold leadingExponent
    omega
  have hscale : (0 : ℚ) < 10 ^ e := by positivity
  rw [hnext, hlead, zpow_add₀ (by norm_num), zpow_add₀ (by norm_num), zpow_natCast, zpow_natCast]
  constructor
  · exact mul_le_mul_of_nonneg_right (by exact_mod_cast pow_length_le hc) hscale.le
  · exact mul_lt_mul_of_pos_right (by exact_mod_cast lt_pow_length c) hscale

theorem magnitude_lt_of_leadingExponent {c₁ c₂ : Nat} (h₁ : 0 < c₁) (h₂ : 0 < c₂) {e₁ e₂ : Int}
    (h : leadingExponent c₁ e₁ < leadingExponent c₂ e₂) : magnitude c₁ e₁ < magnitude c₂ e₂ :=
  calc magnitude c₁ e₁ < 10 ^ (leadingExponent c₁ e₁ + 1) := (magnitude_bounds h₁ e₁).2
    _ ≤ 10 ^ leadingExponent c₂ e₂ := zpow_le_zpow_right₀ (by norm_num) h
    _ ≤ magnitude c₂ e₂ := (magnitude_bounds h₂ e₂).1

/-- Lowering the exponent lengthens the coefficient. -/
theorem magnitude_lowered (c : Nat) {e e' : Int} (h : e' ≤ e) :
    magnitude c e = (c * Nat.pow 10 (e - e').toNat : ℕ) * 10 ^ e' := by
  have hsplit : e = ((e - e').toNat : ℤ) + e' := by omega
  unfold magnitude
  conv_lhs => rw [hsplit, zpow_add₀ (by norm_num), zpow_natCast]
  rw [Nat.pow_eq]
  push_cast
  rw [mul_assoc]

theorem compare_scaled (a b : Nat) (e : Int) :
    compare ((a : ℚ) * 10 ^ e) (b * 10 ^ e) = compare a b := by
  have hscale : (0 : ℚ) < 10 ^ e := by positivity
  have hmono : StrictMono fun n : ℕ => (n : ℚ) * 10 ^ e := fun m n h =>
    mul_lt_mul_of_pos_right (by exact_mod_cast h) hscale
  exact Store.compare_map hmono a b

/-- Comparing leading digits, and coefficients only where these are level, compares values. -/
theorem compareMagnitude_eq {c₁ c₂ : Nat} (h₁ : 0 < c₁) (h₂ : 0 < c₂) (e₁ e₂ : Int) :
    compareMagnitude c₁ e₁ c₂ e₂ = compare (magnitude c₁ e₁) (magnitude c₂ e₂) := by
  unfold compareMagnitude
  rw [if_neg (by omega)]
  simp only
  rcases lt_trichotomy (leadingExponent c₁ e₁) (leadingExponent c₂ e₂) with h | h | h
  · rw [if_pos h.ne, compare_lt_iff_lt.2 h,
      compare_lt_iff_lt.2 (magnitude_lt_of_leadingExponent h₁ h₂ h)]
  · rw [if_neg (by simpa using h)]
    unfold aligned
    by_cases he : e₁ ≤ e₂
    · rw [if_pos he, magnitude_lowered c₂ he]
      exact (compare_scaled _ _ _).symm
    · rw [if_neg he, magnitude_lowered c₁ (Int.le_of_not_le he)]
      exact (compare_scaled _ _ _).symm
  · rw [if_pos h.ne', compare_gt_iff_gt.2 h,
      compare_gt_iff_gt.2 (magnitude_lt_of_leadingExponent h₂ h₁ h)]

theorem compare_neg (a b : ℚ) : compare (-a) (-b) = compare b a := by
  rw [← cmp_eq_compare, ← cmp_eq_compare]
  exact strictMono_id.neg.cmp_map_eq a b

/-- The order of finite numbers looks at zeros, then at signs, then at absolute values. -/
theorem compare?_finite (n₁ n₂ : Bool) (c₁ c₂ : Nat) (e₁ e₂ : Int) :
    compare? (.finite n₁ c₁ e₁) (.finite n₂ c₂ e₂) =
      some (compare (rank (.finite n₁ c₁ e₁)).2 (rank (.finite n₂ c₂ e₂)).2) := by
  have hzero (e : Int) : magnitude 0 e = 0 := by simp [magnitude]
  simp only [compare?, rank]
  rcases Nat.eq_zero_or_pos c₁ with rfl | h₁
  · rcases Nat.eq_zero_or_pos c₂ with rfl | h₂
    · simp [hzero]
    · have := magnitude_pos h₂ e₂
      cases n₂
      · simp [hzero, h₂.ne', compare_lt_iff_lt.2 this]
      · simp [hzero, h₂.ne', compare_gt_iff_gt.2 (neg_lt_zero.2 this)]
  rcases Nat.eq_zero_or_pos c₂ with rfl | h₂
  · have := magnitude_pos h₁ e₁
    cases n₁
    · simp [hzero, h₁.ne', compare_gt_iff_gt.2 this]
    · simp [hzero, h₁.ne', compare_lt_iff_lt.2 (neg_lt_zero.2 this)]
  · have hx := magnitude_pos h₁ e₁
    have hy := magnitude_pos h₂ e₂
    cases n₁ <;> cases n₂
    · simp [h₁.ne', h₂.ne', compareMagnitude_eq h₁ h₂]
    · simp [h₁.ne', h₂.ne', compare_gt_iff_gt.2 ((neg_lt_zero.2 hy).trans hx)]
    · simp [h₁.ne', h₂.ne', compare_lt_iff_lt.2 ((neg_lt_zero.2 hx).trans hy)]
    · simp [h₁.ne', h₂.ne', compareMagnitude_eq h₁ h₂, compare_neg,
        ← Std.OrientedCmp.eq_swap]

/-- Decimals compare like the numbers that they are. -/
theorem compare?_eq {x y : Decimal} (hx : x.isNan = false) (hy : y.isNan = false) :
    x.compare? y = some ((compare x.rank.1 y.rank.1).then (compare x.rank.2 y.rank.2)) := by
  cases x with
  | nan => cases hx
  | infinity a =>
    cases y with
    | nan => cases hy
    | infinity b => cases a <;> cases b <;> rfl
    | finite n c e => cases a <;> rfl
  | finite n c e =>
    cases y with
    | nan => cases hy
    | infinity b => cases b <;> rfl
    | finite n' c' e' => exact compare?_finite n n' c c' e e'

/-! ### Doubles -/

theorem isNan_ofBinary64 {x : Binary64} (h : x.isNan = false) :
    (ofBinary64 x).isNan = false := by
  unfold ofBinary64
  cases x with
  | nan => cases h
  | infinity negative => rfl
  | finite negative m e =>
    dsimp only
    split
    · rfl
    split
    · rfl
    · rfl

end Number.Decimal

/-! ## Values -/

/-- The orders that values of one kind have. -/
inductive Scale where
  | numbers | texts | days | instants | identifiers

namespace Value

def isNan : Value → Bool
  | .float x => x.isNan
  | .decimal d => d.isNan
  | _ => false

/-- The value has a place on the scale. A time has one if its offset is known, a number if it is no
NaN. -/
inductive On : Scale → Value → Prop where
  | number {v : Value} {x : Decimal} (h : v.number? = some x) (hx : x.isNan = false) : On .numbers v
  | text (s : String) : On .texts (.text s)
  | date (d : Date) : On .days (.date d)
  | datetime {t : DateTime} (h : t.offset.isSome = true) : On .instants (.datetime t)
  | uuid (u : Uuid) : On .identifiers (.uuid u)

/-- Where a value stands among those on its scale: its class, its number and its text. -/
def rank : Value → ℕ × ℚ × String
  | .text s => (2, 0, s)
  | .date d => (2, d.ordinal, "")
  | .datetime t => (2, t.instant, "")
  | .uuid u => (2, u.value, "")
  | v => match v.number? with
    | some x => (x.rank.1, x.rank.2, "")
    | none => (0, 0, "")

/-- Ranks compare by class, then by number, then by text. -/
def compareRank (u v : Value) : Ordering :=
  compareLex (compareOn fun v => (rank v).1) (compareLex (compareOn fun v => (rank v).2.1)
    (compareOn fun v => (rank v).2.2)) u v

instance : Std.TransCmp compareRank :=
  inferInstanceAs (Std.TransCmp (compareLex (compareOn fun v : Value => (rank v).1)
    (compareLex (compareOn fun v => (rank v).2.1) (compareOn fun v => (rank v).2.2))))

theorem compare_natCast (a b : Nat) : compare (a : ℚ) (b : ℚ) = compare a b :=
  Store.compare_map Nat.strictMono_cast a b

theorem compareRank_self (v : Value) : compareRank v v = .eq :=
  Std.ReflCmp.compare_self

theorem compareRank_swap (u v : Value) : compareRank u v = (compareRank v u).swap :=
  Std.OrientedCmp.eq_swap

theorem compareRank_eq (u v : Value) :
    compareRank u v = (compare u.rank.1 v.rank.1).then
      ((compare u.rank.2.1 v.rank.2.1).then (compare u.rank.2.2 v.rank.2.2)) := rfl

theorem rank_of_number? {v : Value} {x : Decimal} (h : v.number? = some x) :
    v.rank = (x.rank.1, x.rank.2, "") := by
  cases v with
  | bool b => cases h; rfl
  | int n => cases h; rfl
  | float x => cases h; rfl
  | decimal d => cases h; rfl
  | _ => cases h

theorem compare?_of_number? {u v : Value} {x y : Decimal} (hu : u.number? = some x)
    (hv : v.number? = some y) : u.compare? v = x.compare? y := by
  cases u with
  | bool _ | int _ | float _ | decimal _ => simp only [compare?, hu, hv]
  | _ => cases hu

/-- Values on one scale are in the order of their ranks. -/
theorem compare?_eq_compareRank {scale : Scale} {u v : Value} (hu : u.On scale) (hv : v.On scale) :
    u.compare? v = some (compareRank u v) := by
  rw [compareRank_eq]
  cases hu with
  | @number u x hx hnan =>
    cases hv with
    | @number v y hy hnan' =>
      rw [compare?_of_number? hx hy, Decimal.compare?_eq hnan hnan', rank_of_number? hx,
        rank_of_number? hy]
      simp
  | text s =>
    cases hv with
    | text t => simp [compare?, rank]
  | date d =>
    cases hv with
    | date d' => simp [compare?, rank, compare_natCast]
  | datetime h =>
    cases hv with
    | datetime h' => simp [compare?, compareTimes?, rank, h, h', Store.compare_intCast]
  | uuid u =>
    cases hv with
    | uuid u' => simp [compare?, rank, compare_natCast]

/-- Values on one scale are equal if their ranks are. -/
theorem eqv_eq_compareRank {scale : Scale} {u v : Value} (hu : u.On scale) (hv : v.On scale) :
    u.eqv v = (compareRank u v == .eq) := by
  have hcompare : u.eqv v = (u.compare? v == some .eq) := by
    cases hu with
    | number h =>
      cases u with
      | bool _ | int _ | float _ | decimal _ => simp only [eqv]
      | _ => cases h
    | _ => simp only [eqv]
  rw [hcompare, compare?_eq_compareRank hu hv]
  rfl

theorem eqv_refl {scale : Scale} {u : Value} (hu : u.On scale) : u.eqv u = true := by
  rw [eqv_eq_compareRank hu hu, compareRank_self]
  rfl

theorem eqv_comm {scale : Scale} {u v : Value} (hu : u.On scale) (hv : v.On scale) :
    u.eqv v = v.eqv u := by
  rw [eqv_eq_compareRank hu hv, eqv_eq_compareRank hv hu, compareRank_swap]
  cases compareRank v u <;> rfl

theorem eqv_trans {scale : Scale} {u v w : Value} (hu : u.On scale) (hv : v.On scale)
    (hw : w.On scale) (huv : u.eqv v = true) (hvw : v.eqv w = true) : u.eqv w = true := by
  rw [eqv_eq_compareRank hu hv, beq_iff_eq] at huv
  rw [eqv_eq_compareRank hv hw, beq_iff_eq] at hvw
  rw [eqv_eq_compareRank hu hw, beq_iff_eq]
  exact Std.TransCmp.eq_trans huv hvw

end Value

/-- The order that the values of a kind have. -/
def Kind.scale : Kind → Scale
  | .boolean | .integer | .float | .decimal => .numbers
  | .date => .days
  | .datetime => .instants
  | .uuid => .identifiers
  | .text | .enum | .json => .texts

theorem isSome_offset_orUtc (t : DateTime) : t.orUtc.offset.isSome = true := by
  unfold DateTime.orUtc
  split
  · rename_i h
    rw [h]
    rfl
  · rfl

theorem Coercion.isSome_offset_datetime {raw : Value} {t : DateTime} (h : datetime raw = .ok t) :
    t.offset.isSome = true := by
  unfold datetime at h
  split at h
  · cases h
    exact isSome_offset_orUtc _
  · cases h
    exact isSome_offset_orUtc _
  · obtain ⟨t', -, rfl⟩ := map_eq_ok.1 h
    exact isSome_offset_orUtc t'

/-- Whatever coercion gives has a place on the scale of the kind, unless it is a NaN. -/
theorem coerce_on {kind : Kind} {options : List String} {raw v : Value}
    (h : coerce kind options raw = .ok v) (hnan : v.isNan = false) : v.On kind.scale := by
  cases kind with
  | boolean =>
    obtain ⟨b, -, rfl⟩ := map_eq_ok.1 h
    exact .number rfl rfl
  | integer =>
    obtain ⟨n, -, rfl⟩ := map_eq_ok.1 h
    exact .number rfl rfl
  | float =>
    obtain ⟨x, -, rfl⟩ := map_eq_ok.1 h
    exact .number rfl (Decimal.isNan_ofBinary64 hnan)
  | decimal =>
    obtain ⟨d, -, rfl⟩ := map_eq_ok.1 h
    exact .number rfl hnan
  | datetime =>
    obtain ⟨t, ht, rfl⟩ := map_eq_ok.1 h
    exact .datetime (Coercion.isSome_offset_datetime ht)
  | date | uuid | enum | text | json =>
    obtain ⟨a, -, rfl⟩ := map_eq_ok.1 h
    constructor

end RecordQuery
