import RecordQuery.Number.Decimal
import RecordQuery.Proofs.Digits
import RecordQuery.Value.Text

/-!
# Numbers and identifiers are read back

* `Decimal.read?_chars`: a decimal within the bounds of exponents is read back, digit by digit.
* `Uuid.read?_chars`, `Uuid.read?_hex`: an identifier is read back from its text, with dashes or
  without.
-/

namespace RecordQuery

namespace Text

theorem dropWhile_of_forall {p : Char → Bool} {cs : List Char} (h : ∀ c ∈ cs, p c = false) :
    cs.dropWhile p = cs := by
  cases cs with
  | nil => rfl
  | cons c cs => simp [h c List.mem_cons_self]

/-- Nothing is stripped from a text without such characters. -/
theorem stripChars_of_forall {p : Char → Bool} {cs : List Char} (h : ∀ c ∈ cs, p c = false) :
    stripChars p cs = cs := by
  have hreverse : ∀ c ∈ cs.reverse, p c = false := fun c hc => h c (List.mem_reverse.1 hc)
  rw [stripChars, dropWhile_of_forall h, dropWhile_of_forall hreverse, List.reverse_reverse]

/-- A text that ends with another character is stripped at its front only. -/
theorem stripChars_append {p : Char → Bool} {d : Char} (hd : p d = false) (cs : List Char) :
    stripChars p (cs ++ [d]) = cs.dropWhile p ++ [d] := by
  have hhead : (cs ++ [d]).dropWhile p = cs.dropWhile p ++ [d] := by
    induction cs with
    | nil => simp [hd]
    | cons c cs ih => cases hc : p c <;> simp [hc, ih]
  rw [stripChars, hhead, List.reverse_append]
  simp [hd]

/-- A text that begins and ends with other characters is not stripped. -/
theorem stripChars_of_ends {p : Char → Bool} {c d : Char} (hc : p c = false) (hd : p d = false)
    (cs : List Char) : stripChars p (c :: cs ++ [d]) = c :: cs ++ [d] := by
  rw [stripChars_append hd, List.dropWhile_cons_of_neg (by simp [hc])]

/-- A text without the first character of another one does not change when that is replaced. -/
theorem replaceAll_of_not_mem {d : Char} {old new cs : List Char} (h : d ∉ cs) :
    replaceAll (d :: old) new cs = cs := by
  induction cs with
  | nil => rw [replaceAll]
  | cons c cs ih =>
    simp only [List.mem_cons, not_or] at h
    have hhead : (d :: old).isPrefixOf (c :: cs) = false := by
      simp [List.isPrefixOf, h.1]
    rw [replaceAll, if_neg (by simp [hhead]), ih h.2]

theorem isBlank_of_plain {c : Char} (h : 0x21 ≤ c.toNat ∧ c.toNat < 0x80) : isBlank c = false := by
  simp only [isBlank, inRanges, blankRanges]
  rw [Bool.eq_false_iff]
  simp only [List.any_cons, List.any_nil, Bool.or_false, ne_eq, Bool.or_eq_true, Bool.and_eq_true,
    decide_eq_true_eq]
  omega

end Text

namespace Number

open RecordQuery.Text

/-- Characters of ASCII stay as they are when digits are brought to ASCII. -/
theorem asciiDigits_of_ascii {cs : List Char} (h : ∀ c ∈ cs, c.toNat < 0x80) :
    asciiDigits cs = cs := by
  induction cs with
  | nil => rfl
  | cons c cs ih =>
    have htail := ih fun d hd => h d (List.mem_cons_of_mem _ hd)
    simp only [asciiDigits, List.map_cons] at htail ⊢
    rw [htail]
    congr 1
    have hc := h c List.mem_cons_self
    unfold decimalValue?
    simp only
    split
    · rename_i v hv
      split at hv
      · rename_i hdigit
        cases hv
        rw [show '0'.toNat + (c.toNat - 0x30) = c.toNat by
          have : '0'.toNat = 0x30 := rfl
          omega]
        exact Char.ofNat_toNat c
      · cases hv
    · rfl

/-! ## Decimals -/

theorem splitSign_signed {c : Char} (hc : isAsciiDigit c = true) (negative : Bool)
    (cs : List Char) : splitSign (Binary64.signed negative (c :: cs)) = (negative, c :: cs) := by
  cases negative with
  | true => rfl
  | false =>
    unfold Binary64.signed splitSign
    split
    · rename_i h
      rw [(List.cons.inj h).1] at hc
      exact absurd hc (by decide)
    · rename_i h
      rw [(List.cons.inj h).1] at hc
      exact absurd hc (by decide)
    · rfl

theorem readNat_of_digitsFrom {cs : List Char} (hne : cs ≠ []) {n : Nat}
    (h : digitsFrom 0 cs = some n) : readNat cs = some n := by
  rw [readNat, if_neg (by simpa using hne), h]

section Scientific

variable {whole fraction tail : List Char} {n : Nat} {exponent : Int}
  (hwhole : ∀ c ∈ whole, isAsciiDigit c = true) (hne : whole ≠ [])
  (htail : ∀ c ∈ tail.head?, isAsciiDigit c = false ∧ c ≠ '.')
  (hexponent : readExponent tail = some exponent) (negative : Bool)

include hwhole hne htail hexponent

/-- Digits without a point, before an exponent. -/
theorem readScientific_whole (hn : digitsFrom 0 whole = some n) :
    readScientific (Binary64.signed negative (whole ++ tail)) = some ⟨negative, n, exponent⟩ := by
  have hspan := span_append isAsciiDigit whole fun c hc => (htail c hc).1
  rw [span_all hwhole, List.nil_append] at hspan
  have hread := readNat_of_digitsFrom hne hn
  obtain ⟨d, ds, rfl⟩ := List.exists_cons_of_ne_nil hne
  have hfraction : fractionPart tail = ([], tail) := by
    unfold fractionPart
    split
    · exact absurd rfl (htail '.' rfl).2
    · rfl
  rw [List.cons_append] at hspan ⊢
  simp only [readScientific, splitSign_signed (hwhole d List.mem_cons_self), hspan, hfraction]
  simp [hread, hexponent]

/-- Digits around a point, before an exponent. -/
theorem readScientific_point (hfraction : ∀ c ∈ fraction, isAsciiDigit c = true)
    (hn : digitsFrom 0 (whole ++ fraction) = some n) :
    readScientific (Binary64.signed negative (whole ++ '.' :: (fraction ++ tail)))
      = some ⟨negative, n, exponent - fraction.length⟩ := by
  have hpoint : ∀ c ∈ ('.' :: (fraction ++ tail)).head?, isAsciiDigit c = false := by
    simp
    decide
  have hspan := span_append isAsciiDigit whole hpoint
  have hspan' := span_append isAsciiDigit fraction fun c hc => (htail c hc).1
  rw [span_all hwhole, List.nil_append] at hspan
  rw [span_all hfraction, List.nil_append] at hspan'
  have hread := readNat_of_digitsFrom (List.append_ne_nil_of_left_ne_nil hne fraction) hn
  obtain ⟨d, ds, rfl⟩ := List.exists_cons_of_ne_nil hne
  rw [List.cons_append] at hspan hread ⊢
  simp only [readScientific, splitSign_signed (hwhole d List.mem_cons_self), hspan, fractionPart,
    hspan']
  simp [hread, hexponent]

end Scientific

/-- Nothing follows the digits of a plain numeral. -/
theorem noTail_nil : ∀ c ∈ ([] : List Char).head?, isAsciiDigit c = false ∧ c ≠ '.' := by simp

theorem readExponent_chars (n : Int) :
    readExponent ('E' :: (if n < 0 then '-' else '+') :: natDigits n.natAbs) = some n := by
  have hdigits := readNat_natDigits n.natAbs
  by_cases h : n < 0
  · simp only [h, if_true, readExponent, splitSign, hdigits, Option.map_some, or_true]
    congr 1
    omega
  · simp only [h, if_false, readExponent, splitSign, hdigits, Option.map_some, or_true, if_true,
      Bool.false_eq_true]
    congr 1
    omega

namespace Decimal

section Digits

variable {ds : List Char} {c : Nat} (hdigits : ∀ d ∈ ds, isAsciiDigit d = true)
  (hvalue : digitsFrom 0 ds = some c) (hne : ds ≠ [])

include hdigits hvalue

/-- Digits after a point and zeros. -/
theorem readScientific_zeros (negative : Bool) (k : Nat) :
    readScientific (Binary64.signed negative ('0' :: '.' :: List.replicate k '0' ++ ds))
      = some ⟨negative, c, -((k + ds.length : Nat) : Int)⟩ := by
  have hzeros : ∀ d ∈ List.replicate k '0' ++ ds, isAsciiDigit d = true := by
    intro d hd
    rcases List.mem_append.1 hd with hd | hd
    · rw [(List.mem_replicate.1 hd).2]
      decide
    · exact hdigits d hd
  have hzero : ∀ d ∈ ['0'], isAsciiDigit d = true := by
    simp
    decide
  have hall : digitsFrom 0 (['0'] ++ (List.replicate k '0' ++ ds)) = some c := by
    rw [List.singleton_append, ← List.cons_append, ← List.replicate_succ, digitsFrom_zeros,
      Nat.zero_mul, hvalue]
  have hread := readScientific_point hzero (by simp) noTail_nil rfl negative hzeros hall
  rw [List.append_nil] at hread
  refine hread.trans ?_
  rw [List.length_append, List.length_replicate, Int.zero_sub]

include hne

/-- Digits with a point among them. -/
theorem readScientific_split (negative : Bool) {k : Nat} (hk : 0 < k) :
    readScientific (Binary64.signed negative (ds.take k ++ '.' :: ds.drop k))
      = some ⟨negative, c, -((ds.length - k : Nat) : Int)⟩ := by
  have htake : ds.take k ≠ [] := by
    rw [Ne, List.take_eq_nil_iff]
    rintro (h | h)
    · omega
    · exact hne h
  have hall : digitsFrom 0 (ds.take k ++ ds.drop k) = some c := by
    rw [List.take_append_drop, hvalue]
  have hread := readScientific_point (fun d hd => hdigits d (List.mem_of_mem_take hd))
    htake noTail_nil rfl negative (fun d hd => hdigits d (List.mem_of_mem_drop hd)) hall
  rw [List.append_nil] at hread
  rw [hread, List.length_drop, Int.zero_sub]

/-- Digits with their point in its place. -/
theorem readScientific_positional (negative : Bool) {point e : Int} (hpoint : point = e + ds.length)
    (he : e ≤ 0) :
    readScientific (Binary64.signed negative (positional ds point)) = some ⟨negative, c, e⟩ := by
  unfold positional
  by_cases hleft : point ≤ 0
  · rw [if_pos hleft, readScientific_zeros hdigits hvalue]
    congr 2
    omega
  rw [if_neg hleft]
  by_cases hempty : (ds.drop point.toNat).isEmpty = true
  · have hread := readScientific_whole hdigits hne noTail_nil rfl negative hvalue
    rw [List.append_nil] at hread
    rw [if_pos (by simpa using hempty), hread]
    rw [List.isEmpty_iff, List.drop_eq_nil_iff] at hempty
    congr 2
    omega
  · rw [if_neg hempty, readScientific_split hdigits hvalue hne negative (by omega)]
    rw [List.isEmpty_iff, List.drop_eq_nil_iff] at hempty
    congr 2
    omega

/-- One digit, a point and the others, before the exponent of the first one. -/
theorem readScientific_mantissa {tail : List Char} {lead e : Int}
    (htail : ∀ d ∈ tail.head?, isAsciiDigit d = false ∧ d ≠ '.')
    (hexponent : readExponent tail = some lead) (negative : Bool)
    (hlead : lead = e + ds.length - 1) :
    readScientific (Binary64.signed negative (mantissa ds ++ tail)) = some ⟨negative, c, e⟩ := by
  rcases ds with _ | ⟨d, _ | ⟨d', ds⟩⟩
  · exact absurd rfl hne
  · refine (readScientific_whole hdigits hne htail hexponent negative hvalue).trans ?_
    congr 2
    simpa using hlead
  · have hfirst : ∀ x ∈ [d], isAsciiDigit x = true := by
      intro x hx
      rw [List.mem_singleton.1 hx]
      exact hdigits d List.mem_cons_self
    have hread := readScientific_point hfirst (by simp) htail hexponent negative
      (fun x hx => hdigits x (List.mem_cons_of_mem _ hx)) hvalue
    refine hread.trans ?_
    simp only [List.length_cons] at hlead ⊢
    congr 2
    omega

end Digits

/-- The digits and the exponent of a finite decimal are read back from its text. -/
theorem readScientific_chars (negative : Bool) (c : Nat) (e : Int) :
    readScientific (chars (.finite negative c e)) = some ⟨negative, c, e⟩ := by
  have hdigits : ∀ d ∈ natDigits c, isAsciiDigit d = true := fun d hd =>
    isAsciiDigit_of_mem_natDigits hd
  have hvalue : digitsFrom 0 (natDigits c) = some c := by
    rw [digitsFrom_natDigits]
    simp
  have hne := natDigits_ne_nil c
  have hlead : leadingExponent c e = e + (natDigits c).length - 1 := rfl
  simp only [chars]
  by_cases hpositional : e ≤ 0 ∧ -6 ≤ leadingExponent c e
  · rw [if_pos hpositional]
    exact readScientific_positional hdigits hvalue hne negative (by omega) hpositional.1
  · rw [if_neg hpositional]
    have htail : ∀ d ∈ ('E' :: (if leadingExponent c e < 0 then '-' else '+') ::
        natDigits (leadingExponent c e).natAbs).head?, isAsciiDigit d = false ∧ d ≠ '.' := by
      intro d hd
      cases hd
      decide
    exact readScientific_mantissa hdigits hvalue hne htail (readExponent_chars _) negative hlead

theorem plain_of_mem_natDigits {d : Char} {n : Nat} (h : d ∈ natDigits n) :
    0x21 ≤ d.toNat ∧ d.toNat < 0x5F := by
  have := toNat_of_isAsciiDigit (isAsciiDigit_of_mem_natDigits h)
  omega

/-- Points and zeros are all that is put between digits. -/
theorem mem_of_mem_positional {ds : List Char} {point : Int} {d : Char}
    (h : d ∈ positional ds point) : d = '0' ∨ d = '.' ∨ d ∈ ds := by
  unfold positional at h
  split at h
  · simp only [List.cons_append, List.mem_cons, List.mem_append, List.mem_replicate] at h
    rcases h with h | h | ⟨-, h⟩ | h
    · exact .inl h
    · exact .inr (.inl h)
    · exact .inl h
    · exact .inr (.inr h)
  · simp only at h
    split at h
    · exact .inr (.inr h)
    · simp only [List.mem_append, List.mem_cons] at h
      rcases h with h | h | h
      · exact .inr (.inr (List.mem_of_mem_take h))
      · exact .inr (.inl h)
      · exact .inr (.inr (List.mem_of_mem_drop h))

theorem mem_of_mem_mantissa {ds : List Char} {d : Char} (h : d ∈ mantissa ds) :
    d = '.' ∨ d ∈ ds := by
  unfold mantissa at h
  split at h
  · simp only [List.mem_cons] at h ⊢
    rcases h with h | h | h
    · exact .inr (.inl h)
    · exact .inl h
    · exact .inr (.inr h)
  · exact .inr h

/-- The characters of the texts of finite decimals. -/
theorem plain_of_mem_chars {negative : Bool} {c : Nat} {e : Int} {d : Char}
    (h : d ∈ chars (.finite negative c e)) : 0x21 ≤ d.toNat ∧ d.toNat < 0x5F := by
  have hbody : ∀ d ∈ (if e ≤ 0 ∧ -6 ≤ leadingExponent c e then
        positional (natDigits c) (leadingExponent c e + 1)
      else mantissa (natDigits c) ++ 'E' :: (if leadingExponent c e < 0 then '-' else '+') ::
          natDigits (leadingExponent c e).natAbs), 0x21 ≤ d.toNat ∧ d.toNat < 0x5F := by
    intro d hd
    split at hd
    · rcases mem_of_mem_positional hd with rfl | rfl | hd
      · decide
      · decide
      · exact plain_of_mem_natDigits hd
    · simp only [List.mem_append, List.mem_cons] at hd
      rcases hd with hd | rfl | rfl | hd
      · rcases mem_of_mem_mantissa hd with rfl | hd
        · decide
        · exact plain_of_mem_natDigits hd
      · decide
      · split <;> decide
      · exact plain_of_mem_natDigits hd
  cases negative with
  | false => exact hbody d h
  | true =>
    rcases List.mem_cons.1 h with rfl | h
    · decide
    · exact hbody d h

/-- The exponent of the decimal is within bounds; no NaN is. -/
def InBounds : Decimal → Prop
  | .finite negative c e => checked negative c e = some (.finite negative c e)
  | .infinity _ => True
  | .nan .. => False

/-- A decimal within bounds is read back from its text. -/
theorem read?_chars {x : Decimal} (h : x.InBounds) : read? x.chars = some x := by
  cases x with
  | nan => exact h.elim
  | infinity negative => cases negative <;> decide +kernel
  | finite negative c e =>
    have hplain {d : Char} (hd : d ∈ chars (.finite negative c e)) := plain_of_mem_chars hd
    have htrim : trimChars (chars (.finite negative c e)) = chars (.finite negative c e) :=
      stripChars_of_forall fun d hd => isBlank_of_plain (by have := hplain hd; omega)
    have hascii : asciiDigits (chars (.finite negative c e)) = chars (.finite negative c e) :=
      asciiDigits_of_ascii fun d hd => by have := hplain hd; omega
    have hfilter : (chars (.finite negative c e)).filter (· != '_')
        = chars (.finite negative c e) := by
      rw [List.filter_eq_self]
      intro d hd
      rw [bne_iff_ne]
      rintro rfl
      exact absurd (hplain hd).2 (by decide)
    simp only [read?, htrim, hascii, hfilter, readScientific_chars]
    exact h

end Decimal
end Number

namespace Uuid

open RecordQuery.Number RecordQuery.Text

/-! ## Identifiers -/

theorem toNat_of_isHexChar {c : Char} (h : isHexChar c = true) :
    (0x30 ≤ c.toNat ∧ c.toNat ≤ 0x39) ∨ (0x61 ≤ c.toNat ∧ c.toNat ≤ 0x66) := by
  rw [isHexChar, Bool.or_eq_true, isAsciiDigit_iff] at h
  simpa using h

theorem ne_of_isHexChar {c d : Char} (h : isHexChar c = true) (hd : isHexChar d = false) :
    c ≠ d := by
  rintro rfl
  rw [h] at hd
  cases hd

/-- The groups of an identifier are its digits again when they are put together. -/
theorem groups_append (h : List Char) :
    h.take 8 ++ ((h.drop 8).take 4 ++ ((h.drop 12).take 4 ++ ((h.drop 16).take 4 ++ h.drop 20)))
      = h := by
  have hnext (n : Nat) : (h.drop n).take 4 ++ h.drop (n + 4) = h.drop n := by
    rw [← List.drop_drop, List.take_append_drop]
  rw [hnext 16, hnext 12, hnext 8, List.take_append_drop]

theorem hexGrouped_go {cs : List Char} (h : ∀ c ∈ cs, isHexChar c = true) {prev : Char}
    (hprev : prev ≠ '_') : hexGrouped.go prev cs = some cs := by
  induction cs generalizing prev with
  | nil => simp [hexGrouped.go, hprev]
  | cons c cs ih =>
    have hc := ne_of_isHexChar (h c List.mem_cons_self) (d := '_') (by decide)
    simp [hexGrouped.go, hc, ih (fun d hd => h d (List.mem_cons_of_mem _ hd)) hc]

section HexChars

variable {cs : List Char} (h : ∀ c ∈ cs, isHexChar c = true)

include h

theorem stripAround_hexChars : stripAround cs = cs := by
  have hnat : ∀ c ∈ cs, 0x21 ≤ c.toNat ∧ c.toNat < 0x80 := by
    intro c hc
    have := toNat_of_isHexChar (h c hc)
    omega
  have hall : cs.all (·.toNat < 0x80) = true := by
    rw [List.all_eq_true]
    exact fun c hc => decide_eq_true (hnat c hc).2
  rw [stripAround, if_pos hall]
  apply stripChars_of_forall
  intro c hc
  have hspace := ne_of_isHexChar (h c hc) (d := ' ') (by decide)
  have hlow : ¬ c.toNat ≤ 0x0D := by
    have := (hnat c hc).1
    omega
  simp [hspace, hlow]

theorem asciiDigits_hexChars : asciiDigits cs = cs := by
  apply asciiDigits_of_ascii
  intro c hc
  have := toNat_of_isHexChar (h c hc)
  omega

theorem splitSign_hexChars : splitSign cs = (false, cs) := by
  unfold splitSign
  split
  · exact absurd rfl (ne_of_isHexChar (h _ List.mem_cons_self) (by decide))
  · exact absurd rfl (ne_of_isHexChar (h _ List.mem_cons_self) (by decide))
  · rfl

/-- An `x` after the first digit would be the mark of a numeral. -/
theorem afterMark_hexChars : afterMark cs = cs := by
  have hx {x : Char} (hmem : x ∈ cs) : ¬ (x = 'x' ∨ x = 'X') :=
    not_or.2 ⟨ne_of_isHexChar (h x hmem) (by decide), ne_of_isHexChar (h x hmem) (by decide)⟩
  unfold afterMark
  split
  · rw [if_neg (hx (by simp))]
  · rw [if_neg (hx (by simp))]
  · rfl

theorem hexGrouped_hexChars (hne : cs ≠ []) : hexGrouped cs = hexFrom 0 cs := by
  unfold hexGrouped
  split
  · exact absurd rfl hne
  · exact absurd rfl (ne_of_isHexChar (h _ List.mem_cons_self) (by decide))
  · rw [hexGrouped_go h (by decide)]
    rfl

/-- Plain hexadecimal digits are read as a number. -/
theorem readHex_of_hexChars (hne : cs ≠ []) {n : Nat} (hn : hexFrom 0 cs = some n) :
    readHex cs = some (n : Int) := by
  simp only [readHex, stripAround_hexChars h, asciiDigits_hexChars h, splitSign_hexChars h,
    afterMark_hexChars h, hexGrouped_hexChars h hne, hn]
  rfl

end HexChars

theorem isHexChar_of_mem_hex {u : Uuid} {c : Char} (h : c ∈ u.hex) : isHexChar c = true :=
  isHexChar_of_mem_hexDigits h

theorem mem_chars {u : Uuid} {c : Char} (h : c ∈ u.chars) : isHexChar c = true ∨ c = '-' := by
  have htake {n m : Nat} (h : c ∈ (u.hex.drop n).take m) : isHexChar c = true :=
    isHexChar_of_mem_hex (List.mem_of_mem_drop (List.mem_of_mem_take h))
  simp only [chars, List.mem_append, List.mem_cons] at h
  rcases h with (((h | rfl | h) | rfl | h) | rfl | h) | rfl | h
  · exact .inl (isHexChar_of_mem_hex (List.mem_of_mem_take h))
  · exact .inr rfl
  · exact .inl (htake h)
  · exact .inr rfl
  · exact .inl (htake h)
  · exact .inr rfl
  · exact .inl (htake h)
  · exact .inr rfl
  · exact .inl (isHexChar_of_mem_hex (List.mem_of_mem_drop h))

/-- Without its dashes the text of an identifier is its digits. -/
theorem filter_chars (u : Uuid) : u.chars.filter (· != '-') = u.hex := by
  have hall {cs : List Char} (h : ∀ c ∈ cs, c ∈ u.hex) : cs.filter (· != '-') = cs := by
    rw [List.filter_eq_self]
    intro c hc
    rw [bne_iff_ne]
    exact ne_of_isHexChar (isHexChar_of_mem_hex (h c hc)) (by decide)
  have hmiddle (n m : Nat) : ((u.hex.drop n).take m).filter (· != '-') = (u.hex.drop n).take m :=
    hall fun c hc => List.mem_of_mem_drop (List.mem_of_mem_take hc)
  have hfirst : (u.hex.take 8).filter (· != '-') = u.hex.take 8 :=
    hall fun c hc => List.mem_of_mem_take hc
  have hlast : (u.hex.drop 20).filter (· != '-') = u.hex.drop 20 :=
    hall fun c hc => List.mem_of_mem_drop hc
  have hdash : ('-' != '-') = false := rfl
  simp only [chars, List.filter_append, List.filter_cons, hfirst, hlast, hmiddle, hdash,
    Bool.false_eq_true, if_false, List.append_assoc]
  exact groups_append u.hex

/-- An identifier is read from its digits, whatever dashes stand among them. -/
theorem read?_of_filter {u : Uuid} {cs : List Char}
    (hall : ∀ c ∈ cs, isHexChar c = true ∨ c = '-') (hfilter : cs.filter (· != '-') = u.hex) :
    read? cs = some u := by
  have hnot {d : Char} (hd : isHexChar d = false) (hdash : d ≠ '-') : d ∉ cs := by
    intro hmem
    rcases hall d hmem with h | h
    · rw [hd] at h
      cases h
    · exact hdash h
  have hurn : replaceAll "urn:".toList [] cs = cs :=
    replaceAll_of_not_mem (d := 'u') (hnot (by decide) (by decide))
  have huuid : replaceAll "uuid:".toList [] cs = cs :=
    replaceAll_of_not_mem (d := 'u') (hnot (by decide) (by decide))
  have hstrip : stripChars (fun c => c == '\x7b' || c == '\x7d') cs = cs := by
    apply stripChars_of_forall
    intro c hc
    rw [Bool.or_eq_false_iff, beq_eq_false_iff_ne, beq_eq_false_iff_ne]
    constructor
    · rintro rfl
      exact hnot (by decide) (by decide) hc
    · rintro rfl
      exact hnot (by decide) (by decide) hc
  have hlength : u.hex.length = 32 := length_hexDigits 32 u.value
  have hvalue : hexFrom 0 u.hex = some u.value := by
    rw [hex, hexFrom_hexDigits 0 32 u.value (by have := u.valid; omega)]
    simp
  have hread := readHex_of_hexChars (fun c hc => isHexChar_of_mem_hex hc)
    (List.ne_nil_of_length_pos (by omega)) hvalue
  simp only [read?, hurn, huuid, hstrip, hfilter, hlength, ne_eq, not_true, if_false, hread,
    Option.bind_some]
  rw [if_neg (by omega), Int.toNat_natCast, ofNat?, dif_pos u.valid]

/-- An identifier is read back from its text. -/
theorem read?_chars (u : Uuid) : read? u.chars = some u :=
  read?_of_filter (fun _ => mem_chars) (filter_chars u)

/-- It is also read back from its digits alone. -/
theorem read?_hex (u : Uuid) : read? u.hex = some u := by
  have hdash : u.hex.filter (· != '-') = u.hex := by
    rw [List.filter_eq_self]
    intro c hc
    rw [bne_iff_ne]
    exact ne_of_isHexChar (isHexChar_of_mem_hex hc) (by decide)
  exact read?_of_filter (fun _ hc => .inl (isHexChar_of_mem_hex hc)) hdash

end Uuid
end RecordQuery
