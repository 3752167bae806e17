import RecordQuery.Digest.Base64

/-!
# Bytes are read back

* `utf8Decode?_utf8Encode`: a text is read back from its UTF-8 form.
* `Base64.decode?_encode`: bytes are read back from their letters.
-/

namespace RecordQuery.Digest

/-! ## UTF-8 -/

theorem toUInt8_toNat {n : Nat} (h : n < 256) : n.toUInt8.toNat = n := by
  simp only [Nat.toUInt8, UInt8.toNat_ofNat']
  omega

/-- A byte within a range carries six bits of a code point on. -/
theorem continued_cons (count point : Nat) {low high n : Nat} (hlow : low < 256)
    (hhigh : high < 256) (hn : low ≤ n ∧ n ≤ high) (rest : Bytes) :
    continued (count + 1) point low.toUInt8 high.toUInt8 (n.toUInt8 :: rest)
      = ((continued count (point * 64 + (n - 0x80)) 0x80 0xBF rest).1,
        (continued count (point * 64 + (n - 0x80)) 0x80 0xBF rest).2 + 1) := by
  have h : low.toUInt8 ≤ n.toUInt8 ∧ n.toUInt8 ≤ high.toUInt8 := by
    rw [UInt8.le_iff_toNat_le, UInt8.le_iff_toNat_le, toUInt8_toNat hlow, toUInt8_toNat hhigh,
      toUInt8_toNat (show n < 256 by omega)]
    exact hn
  rw [continued, if_pos h, toUInt8_toNat (show n < 256 by omega)]

/-- A byte after the second of a character carries any six bits. -/
theorem continued_next (count point : Nat) {bits : Nat} (h : bits < 64) (rest : Bytes) :
    continued (count + 1) point 0x80 0xBF ((0x80 + bits).toUInt8 :: rest)
      = ((continued count (point * 64 + bits) 0x80 0xBF rest).1,
        (continued count (point * 64 + bits) 0x80 0xBF rest).2 + 1) := by
  have hstep := continued_cons count point (show 0x80 < 256 by omega) (show 0xBF < 256 by omega)
    (show 0x80 ≤ 0x80 + bits ∧ 0x80 + bits ≤ 0xBF by omega) rest
  rw [Nat.add_sub_cancel_left] at hstep
  exact hstep

theorem continued_last (point : Nat) {bits : Nat} (h : bits < 64) (rest : Bytes) :
    continued 1 point 0x80 0xBF ((0x80 + bits).toUInt8 :: rest) = (some (point * 64 + bits), 1) :=
  continued_next 0 point h rest

theorem charBytes_ne_nil (c : Char) : charBytes c ≠ [] := by
  unfold charBytes
  simp only
  split
  · simp
  split
  · simp
  split <;> simp

/-! The four lengths of a character, each read back with whatever follows it. -/

theorem decodeOne_one {n : Nat} (h : n < 0x80) (rest : Bytes) :
    decodeOne n.toUInt8 rest = (some (Char.ofNat n), 1) := by
  have hb : n.toUInt8 < 0x80 := by
    rw [UInt8.lt_iff_toNat_lt, toUInt8_toNat (by omega)]
    exact h
  rw [decodeOne, if_pos hb, toUInt8_toNat (by omega)]

theorem decodeOne_two {n : Nat} (hmin : ¬ n < 0x80) (hmax : n < 0x800) (rest : Bytes) :
    decodeOne (0xC0 + n / 64).toUInt8 ((0x80 + n % 64).toUInt8 :: rest)
      = (some (Char.ofNat n), 2) := by
  have hb : ¬ (0xC0 + n / 64).toUInt8 < 0x80 := by
    rw [UInt8.lt_iff_toNat_lt, toUInt8_toNat (by omega)]
    change ¬ 0xC0 + n / 64 < 0x80
    omega
  have hleading : leading? (0xC0 + n / 64).toUInt8 = some (1, n / 64, 0x80, 0xBF) := by
    simp only [leading?, toUInt8_toNat (show 0xC0 + n / 64 < 256 by omega)]
    rw [if_pos (by omega)]
    simp
  have hlast := continued_last (n / 64) (show n % 64 < 64 by omega) rest
  have hpoint : n / 64 * 64 + n % 64 = n := by omega
  rw [decodeOne, if_neg hb, hleading]
  simp only [hlast, hpoint]
  rfl

theorem decodeOne_three {n : Nat} (hmin : ¬ n < 0x800) (hmax : n < 0x10000)
    (hvalid : n < 0xD800 ∨ 0xDFFF < n) (rest : Bytes) :
    decodeOne (0xE0 + n / 4096).toUInt8
      ((0x80 + n / 64 % 64).toUInt8 :: (0x80 + n % 64).toUInt8 :: rest)
      = (some (Char.ofNat n), 3) := by
  have hb : ¬ (0xE0 + n / 4096).toUInt8 < 0x80 := by
    rw [UInt8.lt_iff_toNat_lt, toUInt8_toNat (by omega)]
    change ¬ 0xE0 + n / 4096 < 0x80
    omega
  obtain ⟨low, high, hlow, hhigh, hrange, hleading⟩ : ∃ low high : Nat, low < 256 ∧ high < 256 ∧
      (low ≤ 0x80 + n / 64 % 64 ∧ 0x80 + n / 64 % 64 ≤ high) ∧
      leading? (0xE0 + n / 4096).toUInt8 = some (2, n / 4096, low.toUInt8, high.toUInt8) := by
    simp only [leading?, toUInt8_toNat (show 0xE0 + n / 4096 < 256 by omega)]
    rw [if_neg (by omega)]
    by_cases h0 : n / 4096 = 0
    · rw [if_pos (by omega), h0]
      exact ⟨0xA0, 0xBF, by omega, by omega, by omega, rfl⟩
    rw [if_neg (by omega)]
    by_cases hd : n / 4096 = 0xD
    · rw [if_pos (by omega), hd]
      exact ⟨0x80, 0x9F, by omega, by omega, by omega, rfl⟩
    rw [if_neg (by omega), if_pos (by omega)]
    exact ⟨0x80, 0xBF, by omega, by omega, by omega, by simp⟩
  have hfirst := continued_cons 1 (n / 4096) hlow hhigh hrange ((0x80 + n % 64).toUInt8 :: rest)
  have hlast := continued_last (n / 4096 * 64 + (0x80 + n / 64 % 64 - 0x80))
    (show n % 64 < 64 by omega) rest
  have hpoint : (n / 4096 * 64 + (0x80 + n / 64 % 64 - 0x80)) * 64 + n % 64 = n := by omega
  rw [decodeOne, if_neg hb, hleading]
  simp only [hfirst, hlast, hpoint]
  rfl

theorem decodeOne_four {n : Nat} (hmin : ¬ n < 0x10000) (hmax : n < 0x110000) (rest : Bytes) :
    decodeOne (0xF0 + n / 262144).toUInt8
      ((0x80 + n / 4096 % 64).toUInt8 :: (0x80 + n / 64 % 64).toUInt8 ::
        (0x80 + n % 64).toUInt8 :: rest)
      = (some (Char.ofNat n), 4) := by
  have hb : ¬ (0xF0 + n / 262144).toUInt8 < 0x80 := by
    rw [UInt8.lt_iff_toNat_lt, toUInt8_toNat (by omega)]
    change ¬ 0xF0 + n / 262144 < 0x80
    omega
  obtain ⟨low, high, hlow, hhigh, hrange, hleading⟩ : ∃ low high : Nat, low < 256 ∧ high < 256 ∧
      (low ≤ 0x80 + n / 4096 % 64 ∧ 0x80 + n / 4096 % 64 ≤ high) ∧
      leading? (0xF0 + n / 262144).toUInt8
        = some (3, n / 262144, low.toUInt8, high.toUInt8) := by
    simp only [leading?, toUInt8_toNat (show 0xF0 + n / 262144 < 256 by omega)]
    rw [if_neg (by omega), if_neg (by omega), if_neg (by omega), if_neg (by omega)]
    by_cases h0 : n / 262144 = 0
    · rw [if_pos (by omega), h0]
      exact ⟨0x90, 0xBF, by omega, by omega, by omega, rfl⟩
    rw [if_neg (by omega)]
    by_cases h4 : n / 262144 = 4
    · rw [if_pos (by omega), h4]
      exact ⟨0x80, 0x8F, by omega, by omega, by omega, rfl⟩
    rw [if_neg (by omega), if_pos (by omega)]
    exact ⟨0x80, 0xBF, by omega, by omega, by omega, by simp⟩
  have hfirst := continued_cons 2 (n / 262144) hlow hhigh hrange
    ((0x80 + n / 64 % 64).toUInt8 :: (0x80 + n % 64).toUInt8 :: rest)
  have hsecond := continued_next 1 (n / 262144 * 64 + (0x80 + n / 4096 % 64 - 0x80))
    (show n / 64 % 64 < 64 by omega) ((0x80 + n % 64).toUInt8 :: rest)
  have hlast := continued_last
    ((n / 262144 * 64 + (0x80 + n / 4096 % 64 - 0x80)) * 64 + n / 64 % 64)
    (show n % 64 < 64 by omega) rest
  have hpoint : ((n / 262144 * 64 + (0x80 + n / 4096 % 64 - 0x80)) * 64 + n / 64 % 64) * 64
      + n % 64 = n := by omega
  rw [decodeOne, if_neg hb, hleading]
  simp only [hfirst, hsecond, hlast, hpoint]
  rfl

/-- A character is read back from its bytes, whatever follows them. -/
theorem decodeOne_charBytes {c : Char} {b : UInt8} {bs : Bytes} (h : charBytes c = b :: bs)
    (rest : Bytes) : decodeOne b (bs ++ rest) = (some c, bs.length + 1) := by
  have hvalid : c.toNat < 0xD800 ∨ (0xDFFF < c.toNat ∧ c.toNat < 0x110000) := c.valid
  have hc : Char.ofNat c.toNat = c := Char.ofNat_toNat c
  unfold charBytes at h
  simp only at h
  generalize c.toNat = n at h hvalid hc
  rw [← hc]
  split at h
  · obtain ⟨rfl, rfl⟩ := List.cons.inj h
    exact decodeOne_one (by assumption) rest
  split at h
  · obtain ⟨rfl, rfl⟩ := List.cons.inj h
    exact decodeOne_two (by assumption) (by assumption) rest
  split at h
  · obtain ⟨rfl, rfl⟩ := List.cons.inj h
    exact decodeOne_three (by assumption) (by assumption) (by omega) rest
  · obtain ⟨rfl, rfl⟩ := List.cons.inj h
    exact decodeOne_four (by assumption) (by omega) rest

theorem decodeWith_utf8Encode (bad : Option Char) (cs : List Char) {fuel : Nat}
    (h : (utf8Encode cs).length ≤ fuel) : decodeWith bad fuel (utf8Encode cs) = some cs := by
  induction cs generalizing fuel with
  | nil => simp [utf8Encode, decodeWith]
  | cons c cs ih =>
    have hcons : utf8Encode (c :: cs) = charBytes c ++ utf8Encode cs := List.flatMap_cons
    cases hbytes : charBytes c with
    | nil => exact absurd hbytes (charBytes_ne_nil c)
    | cons b bs =>
      rw [hcons, hbytes, List.cons_append] at h ⊢
      simp only [List.length_cons, List.length_append] at h
      obtain ⟨fuel, rfl⟩ : ∃ k, fuel = k + 1 := ⟨fuel - 1, by omega⟩
      rw [decodeWith, decodeOne_charBytes hbytes]
      simp [@ih fuel (by omega)]

theorem utf8Decode?_utf8Encode (cs : List Char) : utf8Decode? (utf8Encode cs) = some cs :=
  decodeWith_utf8Encode none cs (Nat.le_refl _)

/-! ## Base64 -/

namespace Base64

theorem letterValue?_letter {n : Nat} (h : n < 64) : letterValue? (letter n) = some n := by
  have : ∀ n : Fin 64, letterValue? (letter n) = some n.val := by decide
  exact this ⟨n, h⟩

/-- The letters are visible ASCII characters, none of which pads or separates. -/
theorem letter_plain {n : Nat} (h : n < 64) :
    letter n ≠ '=' ∧ letter n ≠ '.' ∧ 0x21 ≤ (letter n).toNat ∧ (letter n).toNat < 0x80 := by
  have : ∀ n : Fin 64, letter n ≠ '=' ∧ letter n ≠ '.' ∧
      0x21 ≤ (letter n).toNat ∧ (letter n).toNat < 0x80 := by decide
  exact this ⟨n, h⟩

theorem plain_of_mem_encode {bs : Bytes} {c : Char} (h : c ∈ encode bs) :
    c ≠ '.' ∧ 0x21 ≤ c.toNat ∧ c.toNat < 0x80 := by
  have hletter {n : Nat} (hn : n < 64) (hc : c = letter n) :
      c ≠ '.' ∧ 0x21 ≤ c.toNat ∧ c.toNat < 0x80 := by
    rw [hc]
    exact (letter_plain hn).2
  induction bs using encode.induct with
  | case1 x y z rest ih =>
    have hx := x.toNat_lt
    have hy := y.toNat_lt
    have hz := z.toNat_lt
    simp only [encode, List.mem_cons] at h
    rcases h with h | h | h | h | h
    · exact hletter (by omega) h
    · exact hletter (by omega) h
    · exact hletter (by omega) h
    · exact hletter (by omega) h
    · exact ih h
  | case2 x y =>
    have hx := x.toNat_lt
    have hy := y.toNat_lt
    simp only [encode, List.mem_cons, List.not_mem_nil, or_false] at h
    rcases h with h | h | h
    · exact hletter (by omega) h
    · exact hletter (by omega) h
    · exact hletter (by omega) h
  | case3 x =>
    have hx := x.toNat_lt
    simp only [encode, List.mem_cons, List.not_mem_nil, or_false] at h
    rcases h with h | h
    · exact hletter (by omega) h
    · exact hletter (by omega) h
  | case4 => cases h

theorem length_utf8Encode {cs : List Char} (h : ∀ c ∈ cs, c.toNat < 0x80) :
    (utf8Encode cs).length = cs.length := by
  induction cs with
  | nil => rfl
  | cons c cs ih =>
    have hc := h c List.mem_cons_self
    have hcons : utf8Encode (c :: cs) = charBytes c ++ utf8Encode cs := List.flatMap_cons
    rw [hcons, List.length_append, ih fun d hd => h d (List.mem_cons_of_mem _ hd), charBytes]
    simp only [if_pos hc, List.length_cons, List.length_nil]
    omega

section Places

variable {n : Nat} (h : n < 64) (held pads : Nat) (cs : List Char)

include h

theorem decodeFrom_first : decodeFrom 0 held pads (letter n :: cs) = decodeFrom 1 n 0 cs := by
  simp only [decodeFrom, if_neg (letter_plain h).1, letterValue?_letter h]

theorem decodeFrom_second : decodeFrom 1 held pads (letter n :: cs)
    = (decodeFrom 2 (n % 16) 0 cs).map ((held * 4 + n / 16).toUInt8 :: ·) := by
  simp only [decodeFrom, if_neg (letter_plain h).1, letterValue?_letter h]

theorem decodeFrom_third : decodeFrom 2 held pads (letter n :: cs)
    = (decodeFrom 3 (n % 4) 0 cs).map ((held * 16 + n / 4).toUInt8 :: ·) := by
  simp only [decodeFrom, if_neg (letter_plain h).1, letterValue?_letter h]

theorem decodeFrom_fourth : decodeFrom 3 held pads (letter n :: cs)
    = (decodeFrom 0 0 0 cs).map ((held * 64 + n).toUInt8 :: ·) := by
  simp only [decodeFrom, if_neg (letter_plain h).1, letterValue?_letter h]

end Places

theorem toUInt8_eq {b : UInt8} {n : Nat} (h : n = b.toNat) : n.toUInt8 = b := by
  rw [h]
  exact UInt8.ofNat_toNat

/-- With the padding that belongs to them, letters are read as the bytes they were made of. -/
theorem decodeFrom_encode (bs : Bytes) :
    decodeFrom 0 0 0 (encode bs ++ List.replicate ((4 - (encode bs).length % 4) % 4) '=')
      = some bs := by
  induction bs using encode.induct with
  | case1 x y z rest ih =>
    have hx := x.toNat_lt
    have hy := y.toNat_lt
    have hz := z.toNat_lt
    have hlength : (4 - (encode (x :: y :: z :: rest)).length % 4) % 4
        = (4 - (encode rest).length % 4) % 4 := by
      simp only [encode, List.length_cons]
      omega
    rw [hlength]
    simp only [encode, List.cons_append]
    rw [decodeFrom_first (by omega), decodeFrom_second (by omega), decodeFrom_third (by omega),
      decodeFrom_fourth (by omega), ih]
    have hbytes : ((x.toNat / 4) * 4 + (x.toNat % 4 * 16 + y.toNat / 16) / 16).toUInt8 = x ∧
        ((x.toNat % 4 * 16 + y.toNat / 16) % 16 * 16 + (y.toNat % 16 * 4 + z.toNat / 64) / 4).toUInt8
          = y ∧
        ((y.toNat % 16 * 4 + z.toNat / 64) % 4 * 64 + z.toNat % 64).toUInt8 = z :=
      ⟨toUInt8_eq (by omega), toUInt8_eq (by omega), toUInt8_eq (by omega)⟩
    simp only [Option.map_some, hbytes.1, hbytes.2.1, hbytes.2.2]
  | case2 x y =>
    have hx := x.toNat_lt
    have hy := y.toNat_lt
    change decodeFrom 0 0 0 (_ :: _ :: _ :: ['=']) = _
    rw [decodeFrom_first (by omega), decodeFrom_second (by omega), decodeFrom_third (by omega)]
    have hbytes : ((x.toNat / 4) * 4 + (x.toNat % 4 * 16 + y.toNat / 16) / 16).toUInt8 = x ∧
        ((x.toNat % 4 * 16 + y.toNat / 16) % 16 * 16 + (y.toNat % 16 * 4) / 4).toUInt8 = y :=
      ⟨toUInt8_eq (by omega), toUInt8_eq (by omega)⟩
    rw [hbytes.1, hbytes.2]
    rfl
  | case3 x =>
    have hx := x.toNat_lt
    change decodeFrom 0 0 0 (_ :: _ :: ['=', '=']) = _
    rw [decodeFrom_first (by omega), decodeFrom_second (by omega)]
    have hbyte : ((x.toNat / 4) * 4 + (x.toNat % 4 * 16) / 16).toUInt8 = x :=
      toUInt8_eq (by omega)
    rw [hbyte]
    rfl
  | case4 => rfl

theorem decode?_encode (bs : Bytes) : decode? (encode bs) = some bs := by
  unfold decode?
  rw [length_utf8Encode fun c hc => (plain_of_mem_encode hc).2.2]
  exact decodeFrom_encode bs

end Base64
end RecordQuery.Digest
