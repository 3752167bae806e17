import Mathlib.Algebra.Order.Ring.Nat
import Mathlib.Data.List.TakeDrop
import Mathlib.Data.List.TakeWhile
import RecordQuery.Uuid

/-!
# Digits

What numbers look like when they are written, and that they are read back.

* `natDigits_eq`: the digits of a number are those of its tenth part and one more.
* `digitsFrom_natDigits`, `digitsFrom_padded`: decimal digits are read back, after any others.
* `hexFrom_hexDigits`: so are hexadecimal ones.
* `span_append`: a run of characters ends where it ends in a longer text.
-/

namespace RecordQuery

namespace Number

/-! ## Runs of characters -/

/-- The characters of a text do not reach into what follows it. -/
theorem span_append (p : Char → Bool) (cs : List Char) {rest : List Char}
    (hrest : ∀ c ∈ rest.head?, p c = false) :
    (cs ++ rest).span p = ((cs.span p).1, (cs.span p).2 ++ rest) := by
  simp only [List.span_eq_takeWhile_dropWhile]
  induction cs with
  | nil =>
    cases rest with
    | nil => rfl
    | cons c rest =>
      have hc := hrest c rfl
      simp [hc]
  | cons c cs ih =>
    rw [Prod.mk.injEq] at ih
    cases hc : p c with
    | true => simp [hc, ih.1, ih.2]
    | false => simp [hc]

theorem span_all {p : Char → Bool} {cs : List Char} (h : ∀ c ∈ cs, p c = true) :
    cs.span p = (cs, []) := by
  rw [List.span_eq_takeWhile_dropWhile, List.takeWhile_eq_self_iff.2 h,
    List.dropWhile_eq_nil_iff.2 h]

/-! ## Decimal digits -/

theorem natDigitsAux_eq {fuel n : Nat} (h : n < fuel) (acc : List Char) :
    natDigitsAux fuel n acc = natDigits n ++ acc := by
  suffices ∀ fuel fuel' n acc acc', n < fuel → n < fuel' →
      natDigitsAux fuel n (acc ++ acc') = natDigitsAux fuel' n acc ++ acc' from
    this fuel (n + 1) n [] acc h (by omega)
  intro fuel
  induction fuel with
  | zero => omega
  | succ fuel ih =>
    intro fuel' n acc acc' hn hn'
    obtain ⟨fuel', rfl⟩ : ∃ k, fuel' = k + 1 := ⟨fuel' - 1, by omega⟩
    unfold natDigitsAux
    by_cases h10 : n < 10
    · simp [h10]
    · simp only [h10, if_false]
      exact ih fuel' (n / 10) (digitChar (n % 10) :: acc) acc' (by omega) (by omega)

/-- The digits of a number are those of its tenth part, and its last one. -/
theorem natDigits_eq (n : Nat) :
    natDigits n = if n < 10 then [digitChar n] else natDigits (n / 10) ++ [digitChar (n % 10)] := by
  rw [natDigits, natDigitsAux]
  by_cases h : n < 10
  · simp [h]
  · simp only [h, if_false]
    exact natDigitsAux_eq (by omega) _

theorem natDigits_ne_nil (n : Nat) : natDigits n ≠ [] :=
  natDigitsAux_ne_nil _ _ _ (by omega)

theorem isAsciiDigit_digitChar {d : Nat} (h : d < 10) : isAsciiDigit (digitChar d) = true := by
  rw [isAsciiDigit, digitValue?_digitChar h]
  rfl

theorem isAsciiDigit_of_mem_natDigits {n : Nat} {c : Char} (h : c ∈ natDigits n) :
    isAsciiDigit c = true := by
  induction n using Nat.strong_induction_on with
  | _ n ih =>
    rw [natDigits_eq] at h
    by_cases hn : n < 10
    · rw [if_pos hn, List.mem_singleton] at h
      rw [h]
      exact isAsciiDigit_digitChar hn
    · rw [if_neg hn, List.mem_append, List.mem_singleton] at h
      rcases h with h | rfl
      · exact ih (n / 10) (by omega) h
      · exact isAsciiDigit_digitChar (Nat.mod_lt _ (by omega))

theorem digitsFrom_append (acc : Nat) (xs ys : List Char) :
    digitsFrom acc (xs ++ ys) = (digitsFrom acc xs).bind fun n => digitsFrom n ys := by
  induction xs generalizing acc with
  | nil => rfl
  | cons c xs ih =>
    simp only [List.cons_append, digitsFrom]
    cases digitValue? c with
    | none => rfl
    | some v => exact ih _

theorem digitsFrom_natDigits (acc n : Nat) :
    digitsFrom acc (natDigits n) = some (acc * 10 ^ (natDigits n).length + n) := by
  induction n using Nat.strong_induction_on with
  | _ n ih =>
    rw [natDigits_eq]
    by_cases hn : n < 10
    · simp [hn, digitsFrom, digitValue?_digitChar hn, Nat.mul_comm]
    · have hm : n % 10 < 10 := Nat.mod_lt _ (by omega)
      rw [if_neg hn, digitsFrom_append, ih (n / 10) (by omega), Option.bind_some]
      simp only [digitsFrom, digitValue?_digitChar hm, Option.bind_some, List.length_append,
        List.length_singleton, pow_succ]
      congr 1
      have := Nat.div_add_mod n 10
      rw [← Nat.mul_assoc]
      omega

/-- A number below a power of ten has at most so many digits. -/
theorem length_natDigits_le {n k : Nat} (hk : 0 < k) (h : n < 10 ^ k) :
    (natDigits n).length ≤ k := by
  induction k generalizing n with
  | zero => omega
  | succ k ih =>
    rw [natDigits_eq]
    by_cases hn : n < 10
    · simp [hn]
    · have hk' : 0 < k := by
        rcases Nat.eq_zero_or_pos k with rfl | hk'
        · omega
        · exact hk'
      rw [if_neg hn, List.length_append, List.length_singleton]
      have := ih hk' (n := n / 10) (by rw [pow_succ] at h; omega)
      omega

theorem digitChar_eq_zero {d : Nat} (h : d < 10) (hd : digitChar d = '0') : d = 0 := by
  have : ∀ d : Fin 10, digitChar d = '0' → d.val = 0 := by decide
  exact this ⟨d, h⟩ hd

/-- Only zero is written with a zero in front. -/
theorem head_natDigits {n : Nat} {cs : List Char} (h : natDigits n = '0' :: cs) :
    n = 0 ∧ cs = [] := by
  induction n using Nat.strong_induction_on generalizing cs with
  | _ n ih =>
    rw [natDigits_eq] at h
    by_cases hn : n < 10
    · rw [if_pos hn, List.cons.injEq] at h
      exact ⟨digitChar_eq_zero hn h.1, h.2.symm⟩
    · rw [if_neg hn] at h
      cases hd : natDigits (n / 10) with
      | nil => exact absurd hd (natDigits_ne_nil _)
      | cons c ds =>
        rw [hd, List.cons_append, List.cons.injEq] at h
        rw [h.1] at hd
        have := (ih (n / 10) (by omega) hd).1
        omega

/-! ## Digits with zeros in front -/

theorem digitsFrom_zeros (acc k : Nat) (cs : List Char) :
    digitsFrom acc (List.replicate k '0' ++ cs) = digitsFrom (acc * 10 ^ k) cs := by
  induction k generalizing acc with
  | zero => simp
  | succ k ih =>
    have hzero : digitValue? '0' = some 0 := by decide
    simp only [List.replicate_succ, List.cons_append, digitsFrom, hzero, Option.bind_some, ih]
    rw [pow_succ]
    congr 1
    rw [Nat.add_zero, Nat.mul_comm 10, Nat.mul_assoc, Nat.mul_comm 10]

theorem length_padded {width n : Nat} (hw : 0 < width) (h : n < 10 ^ width) :
    (padded width n).length = width := by
  have := length_natDigits_le hw h
  simp only [padded, List.length_append, List.length_replicate]
  omega

theorem digitsFrom_padded (width n : Nat) : digitsFrom 0 (padded width n) = some n := by
  simp only [padded, digitsFrom_zeros, digitsFrom_natDigits]
  simp

theorem isAsciiDigit_of_mem_padded {width n : Nat} {c : Char} (h : c ∈ padded width n) :
    isAsciiDigit c = true := by
  rcases List.mem_append.1 h with h | h
  · rw [(List.mem_replicate.1 h).2]
    decide
  · exact isAsciiDigit_of_mem_natDigits h

theorem padded_ne_nil (width n : Nat) : padded width n ≠ [] := by
  intro h
  exact natDigits_ne_nil n (List.append_eq_nil_iff.1 h).2

/-! ## Characters of digits -/

theorem toNat_of_isAsciiDigit {c : Char} (h : isAsciiDigit c = true) :
    0x30 ≤ c.toNat ∧ c.toNat ≤ 0x39 := by
  unfold isAsciiDigit digitValue? at h
  split at h
  · rename_i hc
    exact hc
  · simp at h

theorem isAsciiDigit_iff {c : Char} : isAsciiDigit c = true ↔ 0x30 ≤ c.toNat ∧ c.toNat ≤ 0x39 := by
  refine ⟨toNat_of_isAsciiDigit, ?_⟩
  intro h
  have hc : '0' ≤ c ∧ c ≤ '9' := h
  simp [isAsciiDigit, digitValue?, hc]

end Number

namespace Uuid

open RecordQuery.Number

/-! ## Hexadecimal digits -/

theorem hexDigitValue?_hexDigit {d : Nat} (h : d < 16) : hexDigitValue? (hexDigit d) = some d := by
  have : ∀ d : Fin 16, hexDigitValue? (hexDigit d) = some d.val := by decide
  exact this ⟨d, h⟩

theorem length_hexDigits (count n : Nat) : (hexDigits count n).length = count := by
  induction count generalizing n with
  | zero => rfl
  | succ count ih => simp [hexDigits, ih]

theorem hexFrom_append (acc : Nat) (xs ys : List Char) :
    hexFrom acc (xs ++ ys) = (hexFrom acc xs).bind fun n => hexFrom n ys := by
  induction xs generalizing acc with
  | nil => rfl
  | cons c xs ih =>
    simp only [List.cons_append, hexFrom]
    cases hexDigitValue? c with
    | none => rfl
    | some v => exact ih _

theorem hexFrom_hexDigits (acc count n : Nat) (h : n < 16 ^ count) :
    hexFrom acc (hexDigits count n) = some (acc * 16 ^ count + n) := by
  induction count generalizing n with
  | zero =>
    rw [pow_zero] at h
    simp [hexDigits, hexFrom]
    omega
  | succ count ih =>
    have hm : n % 16 < 16 := Nat.mod_lt _ (by omega)
    rw [hexDigits, hexFrom_append, ih (n / 16) (by rw [pow_succ] at h; omega), Option.bind_some]
    simp only [hexFrom, hexDigitValue?_hexDigit hm, Option.bind_some, pow_succ]
    congr 1
    rw [← Nat.mul_assoc]
    omega

/-- A digit or one of the letters up to `f`. -/
def isHexChar (c : Char) : Bool := isAsciiDigit c || (0x61 ≤ c.toNat && c.toNat ≤ 0x66)

theorem isHexChar_of_mem_hexDigits {count n : Nat} {c : Char} (h : c ∈ hexDigits count n) :
    isHexChar c = true := by
  induction count generalizing n with
  | zero => cases h
  | succ count ih =>
    rcases List.mem_append.1 h with h | h
    · exact ih h
    · have hdigit : ∀ d : Fin 16, isHexChar (hexDigit d) = true := by decide
      rw [List.mem_singleton.1 h]
      exact hdigit ⟨n % 16, Nat.mod_lt _ (by omega)⟩

end Uuid
end RecordQuery
