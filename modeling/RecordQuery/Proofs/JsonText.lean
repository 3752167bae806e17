import RecordQuery.Json.Writer
import RecordQuery.Proofs.JsonForms

/-!
# JSON texts are read back

The form of a value, compact or with blanks, is read as that value, as long as JSON can hold it: its
floating numbers have texts that read back, its integers are not too long, and no key of a mapping
is repeated.

* `Json.Readable`: the values that JSON holds, with their lists and mappings no deeper in each other
  than there is room for.
* `Json.reads`: the forms of values, items and entries are read, whatever ends them.
* `Json.load_charsWith`: a whole text is read back.
-/

namespace RecordQuery.Json

open RecordQuery.Number

/-! ## What JSON holds -/

mutual

/-- JSON holds the value: it is read back from its text, where there is room for so many lists and
mappings in each other. -/
def Readable : (room : Nat) → Value → Prop
  | _, .null | _, .bool _ | _, .text _ => True
  | _, .int n => (natDigits n.natAbs).length ≤ maxDigits
  | _, .float x => read? (floatChars x) = some (.float x)
  | room + 1, .list items => ReadableList room items
  | room + 1, .mapping entries => ReadableEntries room entries ∧ (entries.map (·.1)).Nodup
  | _, _ => False

def ReadableList : (room : Nat) → List Value → Prop
  | _, [] => True
  | room, v :: rest => Readable room v ∧ ReadableList room rest

def ReadableEntries : (room : Nat) → Entries → Prop
  | _, [] => True
  | room, (_, v) :: rest => Readable room v ∧ ReadableEntries room rest

end

/-- What may follow a value: nothing, or a mark of its collection. -/
def Ends (rest : List Char) : Prop := ∀ c ∈ rest.head?, c = ',' ∨ c = ']' ∨ c = '\x7d'

theorem Ends.not {rest : List Char} (h : Ends rest) {p : Char → Bool}
    (hp : p ',' = false ∧ p ']' = false ∧ p '\x7d' = false) : ∀ c ∈ rest.head?, p c = false := by
  intro c hc
  rcases h c hc with rfl | rfl | rfl
  · exact hp.1
  · exact hp.2.1
  · exact hp.2.2

theorem skipSpace_cons {c : Char} (h : isSpace c = false) (cs : List Char) :
    skipSpace (c :: cs) = c :: cs := by
  simp [skipSpace, h]

theorem skipSpace_ends {rest : List Char} (h : Ends rest) : skipSpace rest = rest := by
  cases rest with
  | nil => rfl
  | cons c rest => exact skipSpace_cons (h.not (p := isSpace) (by decide) c rfl) rest

/-! ## Strings -/

theorem hexUnit?_hexDigits {n : Nat} (h : n < 0x10000) (rest : List Char) :
    hexUnit? (Uuid.hexDigits 4 n ++ rest) = some (n, rest) := by
  have hlength := Uuid.length_hexDigits 4 n
  unfold hexUnit?
  rw [if_neg (by simp [hlength]), List.take_left' hlength, List.drop_left' hlength,
    Uuid.hexFrom_hexDigits 0 4 n h]
  simp

/-- An escaped unit that is no half of a pair. -/
theorem unicodeEscape?_single {c : Char} (h : c.toNat < 0x10000) (rest : List Char) :
    unicodeEscape? (Uuid.hexDigits 4 c.toNat ++ rest) = some (c, rest) := by
  have hvalid : c.toNat < 0xD800 ∨ (0xDFFF < c.toNat ∧ c.toNat < 0x110000) := c.valid
  have hhigh : isHighHalf c.toNat = false := by
    unfold isHighHalf
    rw [Bool.and_eq_false_iff, decide_eq_false_iff_not, decide_eq_false_iff_not]
    omega
  have hlow : isLowHalf c.toNat = false := by
    unfold isLowHalf
    rw [Bool.and_eq_false_iff, decide_eq_false_iff_not, decide_eq_false_iff_not]
    omega
  simp [unicodeEscape?, hexUnit?_hexDigits h, hhigh, unitChar, hlow]

/-- An escaped pair of units. -/
theorem unicodeEscape?_pair {high low : Nat} (hhigh : isHighHalf high = true)
    (hlow : isLowHalf low = true) (rest : List Char) :
    unicodeEscape? (Uuid.hexDigits 4 high ++ '\\' :: 'u' :: (Uuid.hexDigits 4 low ++ rest))
      = some (Char.ofNat (0x10000 + (high - 0xD800) * 0x400 + (low - 0xDC00)), rest) := by
  have hh : 0xD800 ≤ high ∧ high ≤ 0xDBFF := by simpa [isHighHalf] using hhigh
  have hl : 0xDC00 ≤ low ∧ low ≤ 0xDFFF := by simpa [isLowHalf] using hlow
  rw [unicodeEscape?, hexUnit?_hexDigits (by omega)]
  simp only [bind, Option.bind, hhigh, if_true, hexUnit?_hexDigits (show low < 0x10000 by omega) rest,
    hlow, pure]

/-- The characters with a short escape. -/
def shortEscapes : List Char := ['"', '\\', '\n', '\r', '\t', '\x08', '\x0c']

theorem stringBody_short {c : Char} (h : c ∈ shortEscapes) (fuel : Nat) (rest : List Char) :
    stringBody (fuel + 1) (stringChar c ++ rest)
      = (stringBody fuel rest).bind fun p => some (c :: p.1, p.2) := by
  simp only [shortEscapes, List.mem_cons, List.not_mem_nil, or_false] at h
  rcases h with rfl | rfl | rfl | rfl | rfl | rfl | rfl
  all_goals simp [stringChar, stringBody, simpleEscape?]

theorem stringChar_of_not_short {c : Char} (h : c ∉ shortEscapes) :
    stringChar c = if 0x20 ≤ c.toNat ∧ c.toNat < 0x7F then [c]
      else if c.toNat < 0x10000 then unitEscape c.toNat
      else unitEscape (0xD800 + (c.toNat - 0x10000) / 0x400)
        ++ unitEscape (0xDC00 + (c.toNat - 0x10000) % 0x400) := by
  simp only [shortEscapes, List.mem_cons, List.not_mem_nil, or_false, not_or] at h
  obtain ⟨hquote, hslash, hn, hr, ht, hb, hf⟩ := h
  simp only [stringChar]
  rw [if_neg hquote, if_neg hslash, if_neg hn, if_neg hr, if_neg ht, if_neg hb, if_neg hf]

/-- A character outside the basic plane is written as two units, which make it up. -/
theorem stringChar_pair {c : Char} (h : ¬ c.toNat < 0x10000) :
    ∃ high low, stringChar c = unitEscape high ++ unitEscape low ∧ isHighHalf high = true ∧
      isLowHalf low = true ∧
      Char.ofNat (0x10000 + (high - 0xD800) * 0x400 + (low - 0xDC00)) = c := by
  have hvalid : c.toNat < 0xD800 ∨ (0xDFFF < c.toNat ∧ c.toNat < 0x110000) := c.valid
  have hsmall : ∀ d ∈ shortEscapes, d.toNat < 0x10000 := by simp [shortEscapes]
  obtain ⟨high, hhigh⟩ : ∃ n, n = 0xD800 + (c.toNat - 0x10000) / 0x400 := ⟨_, rfl⟩
  obtain ⟨low, hlow⟩ : ∃ n, n = 0xDC00 + (c.toNat - 0x10000) % 0x400 := ⟨_, rfl⟩
  have hvalue : 0x10000 + (high - 0xD800) * 0x400 + (low - 0xDC00) = c.toNat := by omega
  refine ⟨high, low, ?_, ?_, ?_, ?_⟩
  · rw [stringChar_of_not_short fun hshort => h (hsmall c hshort), if_neg (by omega), if_neg h,
      hhigh, hlow]
  · rw [isHighHalf, Bool.and_eq_true, decide_eq_true_eq, decide_eq_true_eq]
    omega
  · rw [isLowHalf, Bool.and_eq_true, decide_eq_true_eq, decide_eq_true_eq]
    omega
  · rw [hvalue]
    exact Char.ofNat_toNat c

/-- A character is read back from its form in a string. -/
theorem stringBody_stringChar (c : Char) (fuel : Nat) (rest : List Char) :
    stringBody (fuel + 1) (stringChar c ++ rest)
      = (stringBody fuel rest).map fun p => (c :: p.1, p.2) := by
  have hsome : ∀ p : Option (List Char × List Char), (p.bind fun q => some (c :: q.1, q.2))
      = p.map fun p => (c :: p.1, p.2) := fun p => by cases p <;> rfl
  by_cases hshort : c ∈ shortEscapes
  · rw [stringBody_short hshort, hsome]
  by_cases hlarge : ¬ c.toNat < 0x10000
  · obtain ⟨high, low, hunits, hhigh, hlow, hchar⟩ := stringChar_pair hlarge
    have hpair := unicodeEscape?_pair hhigh hlow rest
    rw [hchar] at hpair
    rw [hunits]
    simp only [unitEscape, List.cons_append, List.append_assoc]
    simp [stringBody, hpair, hsome]
  rw [not_not] at hlarge
  rw [stringChar_of_not_short hshort]
  by_cases hplain : 0x20 ≤ c.toNat ∧ c.toNat < 0x7F
  · have hquote : c ≠ '"' := fun h => hshort (by simp [shortEscapes, h])
    have hslash : c ≠ '\\' := fun h => hshort (by simp [shortEscapes, h])
    have hnot : ¬ (c.toNat < 0x20 ∨ c = '\\') := by
      rintro (h | h)
      · omega
      · exact hslash h
    rw [if_pos hplain, List.cons_append, List.nil_append, stringBody]
    · rw [if_neg hnot]
      exact hsome _
    · exact hquote
    · exact fun _ h => absurd h hslash
    · exact fun _ _ h => absurd h hslash
  · rw [if_neg hplain, if_pos hlarge, unitEscape, List.cons_append, List.cons_append]
    simp [stringBody, unicodeEscape?_single hlarge, hsome]

theorem stringBody_flatMap (s : List Char) {fuel : Nat} (h : s.length < fuel) (rest : List Char) :
    stringBody fuel (s.flatMap stringChar ++ '"' :: rest) = some (s, rest) := by
  induction s generalizing fuel with
  | nil =>
    obtain ⟨fuel, rfl⟩ : ∃ k, fuel = k + 1 := ⟨fuel - 1, by omega⟩
    simp [stringBody]
  | cons c s ih =>
    obtain ⟨fuel, rfl⟩ : ∃ k, fuel = k + 1 := ⟨fuel - 1, by omega⟩
    rw [List.flatMap_cons, List.append_assoc, stringBody_stringChar,
      ih (by simp only [List.length_cons] at h; omega)]
    rfl

theorem length_le_flatMap_stringChar (s : List Char) :
    s.length ≤ (s.flatMap stringChar).length := by
  induction s with
  | nil => simp
  | cons c s ih =>
    have hc : 1 ≤ (stringChar c).length := by
      unfold stringChar
      repeat' split
      all_goals simp [unitEscape]
    simp only [List.flatMap_cons, List.length_append, List.length_cons]
    omega

/-- The rest of a string is read up to its closing quote. -/
theorem stringBody_chars (s rest : List Char) :
    stringBody ((s.flatMap stringChar ++ '"' :: rest).length + 1)
      (s.flatMap stringChar ++ '"' :: rest) = some (s, rest) := by
  have := length_le_flatMap_stringChar s
  exact stringBody_flatMap s (by simp only [List.length_append]; omega) rest

/-! ## Words and numbers -/

theorem words_eq : words =
    [(['n', 'u', 'l', 'l'], .null), (['t', 'r', 'u', 'e'], .bool true),
      (['f', 'a', 'l', 's', 'e'], .bool false), (['N', 'a', 'N'], .float .nan),
      (['I', 'n', 'f', 'i', 'n', 'i', 't', 'y'], .float (.infinity false)),
      (['-', 'I', 'n', 'f', 'i', 'n', 'i', 't', 'y'], .float (.infinity true))] := by
  simp [words]

/-- No word begins with a digit, or with a sign before a digit. -/
theorem word?_eq_none {c : Char} {cs : List Char} (h : isAsciiDigit c = true) :
    word? (c :: cs) = none ∧ word? ('-' :: c :: cs) = none := by
  have hne (d : Char) (hd : isAsciiDigit d = false) : ¬ d = c := by
    rintro rfl
    rw [h] at hd
    cases hd
  constructor
  · simp [word?, words_eq, afterWord?, hne 'n' (by decide), hne 't' (by decide), hne 'f' (by decide),
      hne 'N' (by decide), hne 'I' (by decide), hne '-' (by decide)]
  · simp [word?, words_eq, afterWord?, hne 'I' (by decide)]

theorem decimals_of_ne {cs : List Char} (h : ∀ c ∈ cs.head?, c ≠ '.') : decimals cs = ([], cs) := by
  unfold decimals
  split
  · exact absurd rfl (h '.' rfl)
  · rfl

theorem exponentPart_of_ne {cs : List Char} (h : ∀ c ∈ cs.head?, ¬ (c = 'e' ∨ c = 'E')) :
    exponentPart cs = (none, cs) := by
  unfold exponentPart
  split
  · rename_i c rest
    rw [if_neg (h c rfl)]
  · rfl

theorem splitSign_of_ne {cs : List Char} (h : ∀ c ∈ cs.head?, c ≠ '-' ∧ c ≠ '+') :
    splitSign cs = (false, cs) := by
  unfold splitSign
  split
  · exact absurd rfl (h '-' rfl).1
  · exact absurd rfl (h '+' rfl).2
  · rfl

/-! Reading a number goes no further than the number does. -/

section Local

variable {rest : List Char} (hrest : Ends rest)

include hrest

theorem decimals_append (cs : List Char) :
    decimals (cs ++ rest) = ((decimals cs).1, (decimals cs).2 ++ rest) := by
  have hdigit := hrest.not (p := isAsciiDigit) (by decide)
  cases cs with
  | nil =>
    have hpoint : ∀ c ∈ rest.head?, c ≠ '.' := by
      intro c hc
      rcases hrest c hc with rfl | rfl | rfl <;> decide
    rw [List.nil_append, decimals_of_ne hpoint]
    rfl
  | cons c cs =>
    by_cases hc : c = '.'
    · subst hc
      simp only [decimals, List.cons_append, span_append _ cs hdigit]
      split
      · rfl
      · rfl
    · have hpoint : ∀ (cs : List Char), ∀ d ∈ (c :: cs).head?, d ≠ '.' := by
        intro cs d hd
        simp only [List.head?_cons, Option.mem_def, Option.some.injEq] at hd
        exact hd ▸ hc
      rw [List.cons_append, decimals_of_ne (hpoint _), decimals_of_ne (hpoint _)]
      rfl

theorem splitSign_append (cs : List Char) :
    splitSign (cs ++ rest) = ((splitSign cs).1, (splitSign cs).2 ++ rest) := by
  cases cs with
  | nil =>
    have hsign : ∀ c ∈ rest.head?, c ≠ '-' ∧ c ≠ '+' := by
      intro c hc
      rcases hrest c hc with rfl | rfl | rfl <;> decide
    rw [List.nil_append, splitSign_of_ne hsign]
    rfl
  | cons c cs =>
    by_cases hc : c = '-' ∨ c = '+'
    · rcases hc with rfl | rfl <;> rfl
    · have hsign : ∀ (cs : List Char), ∀ d ∈ (c :: cs).head?, d ≠ '-' ∧ d ≠ '+' := by
        intro cs d hd
        simp only [List.head?_cons, Option.mem_def, Option.some.injEq] at hd
        exact hd ▸ not_or.1 hc
      rw [List.cons_append, splitSign_of_ne (hsign _), splitSign_of_ne (hsign _)]
      rfl

theorem exponentPart_append (cs : List Char) :
    exponentPart (cs ++ rest) = ((exponentPart cs).1, (exponentPart cs).2 ++ rest) := by
  have hdigit := hrest.not (p := isAsciiDigit) (by decide)
  cases cs with
  | nil =>
    have hletter : ∀ c ∈ rest.head?, ¬ (c = 'e' ∨ c = 'E') := by
      intro c hc
      rcases hrest c hc with rfl | rfl | rfl <;> decide
    rw [List.nil_append, exponentPart_of_ne hletter]
    rfl
  | cons c cs =>
    simp only [exponentPart, List.cons_append, splitSign_append hrest, span_append _ _ hdigit]
    split
    · split
      · rfl
      · rfl
    · rfl

theorem signPart_append (cs : List Char) :
    signPart (cs ++ rest) = ((signPart cs).1, (signPart cs).2 ++ rest) := by
  have hsign (ds : List Char) (h : ∀ c ∈ ds.head?, c ≠ '-') : signPart ds = (false, ds) := by
    unfold signPart
    split
    · exact absurd rfl (h '-' rfl)
    · rfl
  cases cs with
  | nil =>
    have hne : ∀ c ∈ rest.head?, c ≠ '-' := by
      intro c hc
      rcases hrest c hc with rfl | rfl | rfl <;> decide
    rw [List.nil_append, hsign rest hne]
    rfl
  | cons c cs =>
    by_cases hc : c = '-'
    · subst hc
      rfl
    · have hne : ∀ (ds : List Char), ∀ d ∈ (c :: ds).head?, d ≠ '-' := by
        intro ds d hd
        simp only [List.head?_cons, Option.mem_def, Option.some.injEq] at hd
        exact hd ▸ hc
      rw [List.cons_append, hsign _ (hne _), hsign _ (hne _)]
      rfl

theorem wholePart_append (cs : List Char) :
    wholePart (cs ++ rest) = ((wholePart cs).1, (wholePart cs).2 ++ rest) := by
  have hdigit := hrest.not (p := isAsciiDigit) (by decide)
  have hspan (ds : List Char) (h : ∀ c ∈ ds.head?, c ≠ '0') :
      wholePart ds = ds.span isAsciiDigit := by
    unfold wholePart
    split
    · exact absurd rfl (h '0' rfl)
    · rfl
  cases cs with
  | nil =>
    have hne : ∀ c ∈ rest.head?, c ≠ '0' := by
      intro c hc
      rcases hrest c hc with rfl | rfl | rfl <;> decide
    rw [List.nil_append, hspan rest hne]
    exact span_append _ [] hdigit
  | cons c cs =>
    by_cases hc : c = '0'
    · subst hc
      rfl
    · have hne : ∀ (ds : List Char), ∀ d ∈ (c :: ds).head?, d ≠ '0' := by
        intro ds d hd
        simp only [List.head?_cons, Option.mem_def, Option.some.injEq] at hd
        exact hd ▸ hc
      rw [List.cons_append, hspan _ (hne _), hspan _ (hne _)]
      exact span_append _ (c :: cs) hdigit

/-- The number that is read does not depend on what ends it. -/
theorem number?_append (cs : List Char) :
    number? (cs ++ rest) = (number? cs).map fun p => (p.1, p.2 ++ rest) := by
  simp only [number?, signPart_append hrest, wholePart_append hrest, decimals_append hrest,
    exponentPart_append hrest, Option.map_map]
  rfl

end Local

/-- The text of an integer is read back. -/
theorem number?_intChars {n : Int} (h : (natDigits n.natAbs).length ≤ maxDigits) :
    number? (intChars n) = some (.int n, []) := by
  have hwhole (m : Nat) : wholePart (natDigits m) = (natDigits m, []) := by
    unfold wholePart
    split
    · rename_i rest hrest
      obtain ⟨-, rfl⟩ := head_natDigits hrest
      rw [hrest]
    · exact span_all fun c hc => isAsciiDigit_of_mem_natDigits hc
  have hparts (negative : Bool) (m : Nat) (hm : (natDigits m).length ≤ maxDigits) :
      ofParts? negative (natDigits m) [] none = some (.int (if negative then -(m : Int) else m)) := by
    have hne : (natDigits m).isEmpty = false := by
      rw [List.isEmpty_eq_false_iff]
      exact natDigits_ne_nil m
    simp only [ofParts?, hne, Bool.false_eq_true, if_false, List.isEmpty_nil, Option.isNone_none,
      and_self, if_true, if_neg (Nat.not_lt.2 hm), readNat_natDigits, Option.map_some]
  cases n with
  | ofNat m =>
    have hsign : signPart (natDigits m) = (false, natDigits m) := by
      unfold signPart
      split
      · rename_i rest hrest
        have := isAsciiDigit_of_mem_natDigits (n := m) (c := '-') (by rw [hrest]; simp)
        exact absurd this (by decide)
      · rfl
    simp only [number?, intChars, hsign, hwhole, decimals, exponentPart]
    rw [hparts false m h]
    rfl
  | negSucc m =>
    have hsign : signPart (intChars (.negSucc m)) = (true, natDigits (m + 1)) := rfl
    simp only [number?, hsign, hwhole, decimals, exponentPart]
    rw [hparts true (m + 1) h]
    rfl

/-! ## Floating numbers -/

theorem decimals_suffix (cs : List Char) : (decimals cs).2 <:+ cs := by
  unfold decimals
  split
  · rename_i rest
    simp only [List.span_eq_takeWhile_dropWhile]
    split
    · exact List.suffix_rfl
    · exact (List.dropWhile_suffix _).trans (List.suffix_cons _ _)
  · exact List.suffix_rfl

theorem splitSign_suffix (cs : List Char) : (splitSign cs).2 <:+ cs := by
  unfold splitSign
  split
  · exact List.suffix_cons _ _
  · exact List.suffix_cons _ _
  · exact List.suffix_rfl

theorem exponentPart_suffix (cs : List Char) : (exponentPart cs).2 <:+ cs := by
  unfold exponentPart
  split
  · rename_i c rest
    simp only [List.span_eq_takeWhile_dropWhile]
    split
    · split
      · exact (List.dropWhile_suffix _).trans ((splitSign_suffix rest).trans (List.suffix_cons _ _))
      · exact List.suffix_rfl
    · exact List.suffix_rfl
  · exact List.suffix_rfl

theorem signPart_suffix (cs : List Char) : (signPart cs).2 <:+ cs := by
  unfold signPart
  split
  · exact List.suffix_cons _ _
  · exact List.suffix_rfl

theorem wholePart_suffix (cs : List Char) : (wholePart cs).2 <:+ cs := by
  unfold wholePart
  split
  · exact List.suffix_cons _ _
  · rw [List.span_eq_takeWhile_dropWhile]
    exact List.dropWhile_suffix _

/-- What is left of a text after a number is an end of it. -/
theorem number?_suffix {cs rest : List Char} {v : Value} (h : number? cs = some (v, rest)) :
    rest <:+ cs := by
  obtain ⟨w, -, hw⟩ := Option.map_eq_some_iff.1 h
  rw [Prod.mk.injEq] at hw
  rw [← hw.2]
  exact (exponentPart_suffix _).trans ((decimals_suffix _).trans ((wholePart_suffix _).trans
    (signPart_suffix cs)))

/-- The characters of the texts of finite numbers. -/
def isNumberChar (c : Char) : Bool := isAsciiDigit c || "-+.e".toList.contains c

theorem isNumberChar_of_digit {c : Char} (h : isAsciiDigit c = true) : isNumberChar c = true := by
  rw [isNumberChar, h, Bool.true_or]

theorem isNumberChar_positional {digits : List Char} (h : ∀ c ∈ digits, isAsciiDigit c = true)
    (point : Int) : ∀ c ∈ Binary64.positional digits point, isNumberChar c = true := by
  intro c hc
  unfold Binary64.positional at hc
  split at hc
  · simp only [List.cons_append, List.mem_cons, List.mem_append, List.mem_replicate] at hc
    rcases hc with rfl | rfl | ⟨-, rfl⟩ | hc
    · decide
    · decide
    · decide
    · exact isNumberChar_of_digit (h c hc)
  · simp only [List.mem_append, List.mem_cons, List.mem_replicate] at hc
    rcases hc with (hc | ⟨-, rfl⟩) | rfl | hc
    · exact isNumberChar_of_digit (h c (List.mem_of_mem_take hc))
    · decide
    · decide
    · split at hc
      · rw [List.mem_singleton.1 hc]
        decide
      · exact isNumberChar_of_digit (h c (List.mem_of_mem_drop hc))

theorem isNumberChar_exponential {digits : List Char} (h : ∀ c ∈ digits, isAsciiDigit c = true)
    (exponent : Int) : ∀ c ∈ Binary64.exponential digits exponent, isNumberChar c = true := by
  intro c hc
  simp only [Binary64.exponential, Binary64.exponentChars, List.mem_append, List.mem_cons] at hc
  rcases hc with hc | rfl | rfl | hc
  · split at hc
    · exact isNumberChar_of_digit (h c hc)
    · rcases List.mem_cons.1 hc with rfl | hc
      · exact isNumberChar_of_digit (h c List.mem_cons_self)
      · rcases List.mem_cons.1 hc with rfl | hc
        · decide
        · exact isNumberChar_of_digit (h c (List.mem_cons_of_mem _ hc))
    · cases hc
  · decide
  · split <;> decide
  · exact isNumberChar_of_digit (isAsciiDigit_of_mem_padded hc)

theorem head_positional {d : Char} {ds : List Char} (hd : isAsciiDigit d = true) (point : Int) :
    ∃ c cs, Binary64.positional (d :: ds) point = c :: cs ∧ isAsciiDigit c = true := by
  unfold Binary64.positional
  split
  · exact ⟨'0', _, rfl, by decide⟩
  · obtain ⟨k, hk⟩ : ∃ k, point.toNat = k + 1 := ⟨point.toNat - 1, by omega⟩
    rw [hk]
    exact ⟨d, _, rfl, hd⟩

theorem head_exponential {d : Char} {ds : List Char} (hd : isAsciiDigit d = true)
    (exponent : Int) :
    ∃ c cs, Binary64.exponential (d :: ds) exponent = c :: cs ∧ isAsciiDigit c = true := by
  unfold Binary64.exponential
  cases ds with
  | nil => exact ⟨d, _, rfl, hd⟩
  | cons e ds => exact ⟨d, _, rfl, hd⟩

/-- The text of a finite number: a digit comes first, after the sign if there is one. -/
theorem finite_chars (negative : Bool) (m : Nat) (e : Int) :
    (∀ c ∈ Binary64.chars (.finite negative m e), isNumberChar c = true) ∧
      ∃ c cs, isAsciiDigit c = true ∧
        (Binary64.chars (.finite negative m e) = c :: cs ∨
          Binary64.chars (.finite negative m e) = '-' :: c :: cs) := by
  suffices ∃ body, Binary64.chars (.finite negative m e) = Binary64.signed negative body ∧
      (∀ c ∈ body, isNumberChar c = true) ∧ ∃ c cs, body = c :: cs ∧ isAsciiDigit c = true by
    obtain ⟨body, hbody, hall, c, cs, rfl, hc⟩ := this
    rw [hbody]
    cases negative with
    | false => exact ⟨hall, c, cs, hc, .inl rfl⟩
    | true =>
      refine ⟨?_, c, cs, hc, .inr rfl⟩
      intro d hd
      rcases List.mem_cons.1 hd with rfl | hd
      · decide
      · exact hall d hd
  unfold Binary64.chars
  simp only
  split
  · refine ⟨_, rfl, ?_, '0', _, rfl, by decide⟩
    intro c hc
    have hzero : "0.0".toList = ['0', '.', '0'] := rfl
    rw [hzero, List.mem_cons, List.mem_cons, List.mem_singleton] at hc
    rcases hc with rfl | rfl | rfl
    all_goals decide
  · have hdigits (n : Nat) (c : Char) (hc : c ∈ natDigits n) := isAsciiDigit_of_mem_natDigits hc
    generalize (Binary64.shortest m e).1 = n
    cases hn : natDigits n with
    | nil => exact absurd hn (natDigits_ne_nil n)
    | cons d ds =>
      have hall : ∀ c ∈ d :: ds, isAsciiDigit c = true := fun c hc => hdigits n c (hn ▸ hc)
      refine ⟨_, rfl, ?_, ?_⟩
      · split
        · exact isNumberChar_exponential hall _
        · exact isNumberChar_positional hall _
      · split
        · exact head_exponential (hall d List.mem_cons_self) _
        · exact head_positional (hall d List.mem_cons_self) _

theorem isSpace_of_isNumberChar {c : Char} (h : isNumberChar c = true) : isSpace c = false := by
  rw [Bool.eq_false_iff]
  intro hspace
  simp only [isSpace, Bool.or_eq_true, beq_iff_eq] at hspace
  rcases hspace with ((rfl | rfl) | rfl) | rfl
  all_goals exact absurd h (by decide)

/-! ## Single values -/

/-- A text that begins no string and no collection is a word or a number. -/
theorem value_scalar {c : Char} (hc : c ≠ '"' ∧ c ≠ '[' ∧ c ≠ '\x7b') (room fuel : Nat)
    (cs : List Char) : value number? room (fuel + 1) (c :: cs) = match word? (c :: cs) with
      | some r => .ok r
      | none => wellFormed (number? (c :: cs)) := by
  unfold value
  split
  · rename_i h
    exact absurd (List.cons.inj h).1 hc.1
  · rename_i h
    exact absurd (List.cons.inj h).1 hc.2.1
  · rename_i h
    exact absurd (List.cons.inj h).1 hc.2.2
  · rfl

theorem ne_of_isAsciiDigit {c : Char} (h : isAsciiDigit c = true) :
    c ≠ '"' ∧ c ≠ '[' ∧ c ≠ '\x7b' := by
  refine ⟨?_, ?_, ?_⟩
  all_goals
    rintro rfl
    exact absurd h (by decide)

/-- A text that begins with a digit, or with a sign and a digit, is a number. -/
theorem value_digit {c : Char} (hc : isAsciiDigit c = true) (room fuel : Nat) {text : List Char}
    {cs : List Char} (h : text = c :: cs ∨ text = '-' :: c :: cs) :
    value number? room (fuel + 1) text = wellFormed (number? text) := by
  rcases h with rfl | rfl
  · rw [value_scalar (ne_of_isAsciiDigit hc), (word?_eq_none hc).1]
  · rw [value_scalar (by decide), (word?_eq_none hc).2]

theorem word?_append {word : List Char} {v : Value} (h : (word, v) ∈ words) (rest : List Char) :
    word? (word ++ rest) = some (v, rest) := by
  rw [words_eq] at h
  simp only [List.mem_cons, Prod.mk.injEq, List.not_mem_nil, or_false] at h
  rcases h with ⟨rfl, rfl⟩ | ⟨rfl, rfl⟩ | ⟨rfl, rfl⟩ | ⟨rfl, rfl⟩ | ⟨rfl, rfl⟩ | ⟨rfl, rfl⟩
  all_goals simp [word?, words_eq, afterWord?]

theorem value_word {word : List Char} {v : Value} (h : (word, v) ∈ words) (room fuel : Nat)
    (rest : List Char) : value number? room (fuel + 1) (word ++ rest) = .ok (v, rest) := by
  have hheads : ∀ p ∈ words, p.1.head?.all fun c => c != '"' && c != '[' && c != '\x7b' := by
    simp [words_eq]
  have hne : ∀ p ∈ words, p.1 ≠ [] := by simp [words_eq]
  have hword := word?_append h rest
  cases word with
  | nil => exact absurd rfl (hne _ h)
  | cons c cs =>
    have hc := hheads _ h
    simp only [List.head?_cons, Option.all_some, Bool.and_eq_true, bne_iff_ne] at hc
    rw [List.cons_append, value_scalar ⟨hc.1.1, hc.1.2, hc.2⟩, ← List.cons_append, hword]

theorem value_int {n : Int} (h : (natDigits n.natAbs).length ≤ maxDigits) (room fuel : Nat)
    {rest : List Char} (hrest : Ends rest) :
    value number? room (fuel + 1) (intChars n ++ rest) = .ok (.int n, rest) := by
  obtain ⟨c, cs, hc, hcs⟩ : ∃ c cs, isAsciiDigit c = true ∧
      (intChars n ++ rest = c :: cs ∨ intChars n ++ rest = '-' :: c :: cs) := by
    have hdigits (m : Nat) : ∃ c cs, isAsciiDigit c = true ∧ natDigits m ++ rest = c :: cs := by
      cases hm : natDigits m with
      | nil => exact absurd hm (natDigits_ne_nil m)
      | cons c cs => exact ⟨c, cs ++ rest, isAsciiDigit_of_mem_natDigits (n := m) (by simp [hm]), rfl⟩
    cases n with
    | ofNat m =>
      obtain ⟨c, cs, hc, hcs⟩ := hdigits m
      exact ⟨c, cs, hc, .inl hcs⟩
    | negSucc m =>
      obtain ⟨c, cs, hc, hcs⟩ := hdigits (m + 1)
      exact ⟨c, cs, hc, .inr (congrArg ('-' :: ·) hcs)⟩
  rw [value_digit hc room fuel hcs, number?_append hrest, number?_intChars h]
  rfl

/-- A text that is read as a value, and looks like a number, is a number to its end. -/
theorem number?_of_read? {text : List Char} (hall : ∀ d ∈ text, isNumberChar d = true) {c : Char}
    {cs : List Char} (hc : isAsciiDigit c = true) (hcs : text = c :: cs ∨ text = '-' :: c :: cs)
    {v : Value} (h : read? text = some v) : number? text = some (v, []) := by
  have hspace : skipSpace text = text := by
    rcases hcs with rfl | rfl
    · exact skipSpace_cons (isSpace_of_isNumberChar (isNumberChar_of_digit hc)) _
    · exact skipSpace_cons (by decide) _
  obtain ⟨left, hvalue, hblank⟩ := readWith_eq_ok.1 (read?_eq_some.1 h)
  rw [hspace, value_digit hc _ _ hcs] at hvalue
  have hn : number? text = some (v, left) := wellFormed_eq_ok.1 hvalue
  -- what is left holds no blanks, so that nothing can be left
  cases left with
  | nil => exact hn
  | cons d left =>
    have hd := hall d ((number?_suffix hn).subset List.mem_cons_self)
    rw [skipSpace_cons (isSpace_of_isNumberChar hd)] at hblank
    cases hblank

theorem value_float {x : Binary64} (h : read? (floatChars x) = some (.float x)) (room fuel : Nat)
    {rest : List Char} (hrest : Ends rest) :
    value number? room (fuel + 1) (floatChars x ++ rest) = .ok (.float x, rest) := by
  cases x with
  | nan =>
    have hmem : ("NaN".toList, Value.float .nan) ∈ words := by simp [words]
    exact value_word hmem room fuel rest
  | infinity negative =>
    cases negative with
    | false =>
      have hmem : ("Infinity".toList, Value.float (.infinity false)) ∈ words := by simp [words]
      exact value_word hmem room fuel rest
    | true =>
      have hmem : ("-Infinity".toList, Value.float (.infinity true)) ∈ words := by simp [words]
      exact value_word hmem room fuel rest
  | finite negative m e =>
    obtain ⟨hall, c, cs, hc, hcs⟩ := finite_chars negative m e
    change value number? room (fuel + 1) (Binary64.chars (.finite negative m e) ++ rest) = _
    change read? (Binary64.chars (.finite negative m e)) = _ at h
    generalize Binary64.chars (.finite negative m e) = text at h hall hcs ⊢
    have hnumber := number?_of_read? hall hc hcs h
    have hdigit : text ++ rest = c :: (cs ++ rest) ∨ text ++ rest = '-' :: c :: (cs ++ rest) := by
      rcases hcs with rfl | rfl
      · exact .inl rfl
      · exact .inr rfl
    rw [value_digit hc room fuel hdigit, number?_append hrest, hnumber]
    rfl

theorem value_string (s rest : List Char) (room fuel : Nat) :
    value number? room (fuel + 1) (stringChars s ++ rest) = .ok (.text (.ofList s), rest) := by
  have hform : stringChars s ++ rest = '"' :: (s.flatMap stringChar ++ '"' :: rest) := by
    simp [stringChars]
  rw [hform, value, stringBody_chars]
  rfl

/-! ## Collections

Blanks may follow every comma and colon. -/

/-- The characters are all blanks. -/
def Blank (gap : List Char) : Prop := ∀ c ∈ gap, isSpace c = true

theorem skipSpace_append {gap : List Char} (h : Blank gap) (cs : List Char) :
    skipSpace (gap ++ cs) = skipSpace cs := by
  rw [skipSpace, List.dropWhile_append_of_pos h]
  rfl

/-- Blanks before an item do not count. -/
theorem items_append {gap : List Char} (h : Blank gap) (room fuel : Nat) (cs : List Char) :
    items number? room fuel (gap ++ cs) = items number? room fuel cs := by
  cases fuel with
  | zero => simp only [items]
  | succ fuel => simp only [items, skipSpace_append h]

/-- Nor do blanks before a key. -/
theorem members_append {gap : List Char} (h : Blank gap) (room fuel : Nat) (done : Entries)
    (cs : List Char) :
    members number? room fuel done (gap ++ cs) = members number? room fuel done cs := by
  cases fuel with
  | zero => simp only [members]
  | succ fuel => simp only [members, skipSpace_append h]

section Gap

variable {gap : List Char}

theorem chars_cons (gap : List Char) {room : Nat} {v : Value} (h : Readable room v) :
    ∃ c cs, charsWith gap v = c :: cs ∧ isSpace c = false ∧ c ≠ ']' ∧ c ≠ '\x7d' := by
  cases v with
  | null => exact ⟨'n', _, rfl, by decide⟩
  | bool b => cases b <;> exact ⟨_, _, rfl, by decide⟩
  | int n =>
    cases n with
    | ofNat m =>
      change ∃ c cs, natDigits m = c :: cs ∧ _
      cases hm : natDigits m with
      | nil => exact absurd hm (natDigits_ne_nil m)
      | cons c cs =>
        have hc := isAsciiDigit_of_mem_natDigits (n := m) (c := c) (by simp [hm])
        refine ⟨c, cs, rfl, isSpace_of_isNumberChar (isNumberChar_of_digit hc), ?_, ?_⟩
        all_goals
          rintro rfl
          exact absurd hc (by decide)
    | negSucc m => exact ⟨'-', _, rfl, by decide⟩
  | float x =>
    cases x with
    | nan => exact ⟨'N', _, rfl, by decide⟩
    | infinity negative => cases negative <;> exact ⟨_, _, rfl, by decide⟩
    | finite negative m e =>
      obtain ⟨-, c, cs, hc, hcs | hcs⟩ := finite_chars negative m e
      · refine ⟨c, cs, hcs, isSpace_of_isNumberChar (isNumberChar_of_digit hc), ?_, ?_⟩
        all_goals
          rintro rfl
          exact absurd hc (by decide)
      · exact ⟨'-', c :: cs, hcs, by decide⟩
  | text s => exact ⟨'"', _, rfl, by decide⟩
  | list items => exact ⟨'[', _, rfl, by decide⟩
  | mapping entries => exact ⟨'\x7b', _, rfl, by decide⟩
  | decimal | date | datetime | uuid | tuple => exact h.elim

theorem skipSpace_chars {room : Nat} {v : Value} (h : Readable room v) (rest : List Char) :
    skipSpace (charsWith gap v ++ rest) = charsWith gap v ++ rest := by
  obtain ⟨c, cs, hcs, hspace, -⟩ := chars_cons gap h
  rw [hcs]
  exact skipSpace_cons hspace _

theorem put_of_not_mem {entries : Entries} {k : String} (h : k ∉ entries.map (·.1)) (v : Value) :
    Entries.put entries k v = entries ++ [(k, v)] := by
  induction entries with
  | nil => rfl
  | cons e entries ih =>
    obtain ⟨l, w⟩ := e
    simp only [List.map_cons, List.mem_cons, not_or] at h
    rw [Entries.put, if_neg (fun hl => h.1 hl.symm), ih h.2]
    rfl

theorem ends_comma (rest : List Char) : Ends (',' :: rest) := by
  intro c hc
  exact .inl (Option.some.inj hc).symm

theorem ends_bracket (rest : List Char) : Ends (']' :: rest) := by
  intro c hc
  exact .inr (.inl (Option.some.inj hc).symm)

theorem ends_brace (rest : List Char) : Ends ('\x7d' :: rest) := by
  intro c hc
  exact .inr (.inr (Option.some.inj hc).symm)

/-- With so much room and fuel, every value that there is room for is read back. -/
def ReadsValues (gap : List Char) (room fuel : Nat) : Prop :=
  ∀ v rest, Readable room v → 2 * (charsWith gap v).length ≤ fuel → Ends rest →
    value number? room fuel (charsWith gap v ++ rest) = .ok (v, rest)

/-- The same for the items of a list, which take one unit more for their first place. -/
def ReadsItems (gap : List Char) (room fuel : Nat) : Prop :=
  ∀ vs rest, ReadableList room vs → vs ≠ [] → 2 * (listChars gap vs).length + 1 ≤ fuel →
    items number? room fuel (listChars gap vs ++ ']' :: rest) = .ok (vs, rest)

/-- The same for the entries of a mapping, after others. -/
def ReadsMembers (gap : List Char) (room fuel : Nat) : Prop :=
  ∀ entries done rest, ReadableEntries room entries → entries ≠ [] →
    ((done ++ entries).map (·.1)).Nodup → 2 * (entriesChars gap entries).length + 1 ≤ fuel →
    members number? room fuel done (entriesChars gap entries ++ '\x7d' :: rest)
      = .ok (done ++ entries, rest)

variable {room fuel : Nat}

theorem value_list (hitems : ReadsItems gap room fuel) {items : List Value}
    (hall : ReadableList room items) (hfuel : 2 * (listChars gap items).length + 1 ≤ fuel)
    (rest : List Char) :
    value number? (room + 1) (fuel + 1) ('[' :: (listChars gap items ++ ']' :: rest))
      = .ok (.list items, rest) := by
  cases items with
  | nil =>
    have hskip := skipSpace_ends (ends_bracket rest)
    simp [value, listChars, hskip]
  | cons v items =>
    obtain ⟨c, cs, hcs, hspace, hbracket, -⟩ := chars_cons gap hall.1
    have hhead : ∃ ds, listChars gap (v :: items) ++ ']' :: rest = c :: ds := by
      cases items with
      | nil => exact ⟨cs ++ ']' :: rest, by simp [listChars, hcs]⟩
      | cons w items =>
        exact ⟨cs ++ ',' :: (gap ++ (listChars gap (w :: items) ++ ']' :: rest)),
          by simp [listChars, hcs]⟩
    have hread := hitems (v :: items) rest hall (by simp) hfuel
    obtain ⟨ds, hds⟩ := hhead
    rw [hds] at hread ⊢
    have hskip : skipSpace (c :: ds) = c :: ds := skipSpace_cons hspace ds
    simp only [value, hskip]
    split
    · rename_i h
      exact absurd (List.cons.inj h).1 hbracket
    · rw [hread]
      rfl

theorem value_mapping (hmembers : ReadsMembers gap room fuel) {entries : Entries}
    (hall : ReadableEntries room entries) (hnodup : (entries.map (·.1)).Nodup)
    (hfuel : 2 * (entriesChars gap entries).length + 1 ≤ fuel) (rest : List Char) :
    value number? (room + 1) (fuel + 1) ('\x7b' :: (entriesChars gap entries ++ '\x7d' :: rest))
      = .ok (.mapping entries, rest) := by
  cases entries with
  | nil =>
    have hskip := skipSpace_ends (ends_brace rest)
    simp [value, entriesChars, hskip]
  | cons e entries =>
    obtain ⟨k, v⟩ := e
    have hhead : ∃ ds, entriesChars gap ((k, v) :: entries) ++ '\x7d' :: rest = '"' :: ds := by
      cases entries with
      | nil => exact ⟨_, rfl⟩
      | cons e entries => exact ⟨_, rfl⟩
    have hread := hmembers ((k, v) :: entries) [] rest hall (by simp) (by simpa using hnodup) hfuel
    obtain ⟨ds, hds⟩ := hhead
    rw [hds] at hread ⊢
    have hskip : skipSpace ('"' :: ds) = '"' :: ds := skipSpace_cons (by decide) ds
    simp only [value, hskip]
    split
    · rename_i h
      exact absurd (List.cons.inj h).1 (by decide)
    · rw [hread]
      rfl

theorem readsValues_succ (hitems : ∀ room, ReadsItems gap room fuel)
    (hmembers : ∀ room, ReadsMembers gap room fuel) : ReadsValues gap room (fuel + 1) := by
  intro v rest hv hfuel hrest
  cases v with
  | null =>
    have hmem : ("null".toList, Value.null) ∈ words := by simp [words]
    exact value_word hmem room fuel rest
  | bool b =>
    have hmem : ((if b then "true" else "false").toList, Value.bool b) ∈ words := by
      cases b <;> simp [words]
    exact value_word hmem room fuel rest
  | int n => exact value_int hv room fuel hrest
  | float x => exact value_float hv room fuel hrest
  | text s =>
    have htext := value_string s.toList rest room fuel
    rwa [String.ofList_toList] at htext
  | list items =>
    cases room with
    | zero => exact hv.elim
    | succ room =>
      simp only [charsWith, List.cons_append, List.append_assoc, List.nil_append, List.length_cons,
        List.length_append, List.length_nil] at hfuel ⊢
      exact value_list (hitems room) hv (by omega) rest
  | mapping entries =>
    cases room with
    | zero => exact hv.elim
    | succ room =>
      simp only [charsWith, List.cons_append, List.append_assoc, List.nil_append, List.length_cons,
        List.length_append, List.length_nil] at hfuel ⊢
      exact value_mapping (hmembers room) hv.1 hv.2 (by omega) rest
  | decimal | date | datetime | uuid | tuple => exact hv.elim

theorem readsItems_succ (hgap : Blank gap) (hvalues : ReadsValues gap room fuel)
    (hitems : ReadsItems gap room fuel) : ReadsItems gap room (fuel + 1) := by
  intro vs rest hall hne hfuel
  cases vs with
  | nil => exact absurd rfl hne
  | cons v vs =>
    obtain ⟨c, cs, hcs, -⟩ := chars_cons gap hall.1
    cases vs with
    | nil =>
      simp only [listChars] at hfuel ⊢
      have hread := hvalues v (']' :: rest) hall.1 (by omega) (ends_bracket rest)
      simp only [items, skipSpace_chars hall.1, hread, bind, Except.bind,
        skipSpace_ends (ends_bracket rest)]
      rfl
    | cons w vs =>
      simp only [listChars, List.append_assoc, List.cons_append, List.length_append,
        List.length_cons] at hfuel ⊢
      have hread := hvalues v (',' :: (gap ++ (listChars gap (w :: vs) ++ ']' :: rest))) hall.1
        (by omega) (ends_comma _)
      have hrest := hitems (w :: vs) rest hall.2 (by simp)
        (by rw [hcs] at hfuel; simp at hfuel; omega)
      simp only [items, skipSpace_chars hall.1, hread, bind, Except.bind,
        skipSpace_ends (ends_comma _), items_append hgap, hrest]
      rfl

theorem readsMembers_succ (hgap : Blank gap) (hvalues : ReadsValues gap room fuel)
    (hmembers : ReadsMembers gap room fuel) : ReadsMembers gap room (fuel + 1) := by
  intro entries done rest hall hne hnodup hfuel
  cases entries with
  | nil => exact absurd rfl hne
  | cons e entries =>
    obtain ⟨k, v⟩ := e
    have hput : Entries.put done k v = done ++ [(k, v)] := by
      refine put_of_not_mem ?_ v
      intro hmem
      rw [List.map_append, List.nodup_append] at hnodup
      exact hnodup.2.2 k hmem k (by simp) rfl
    have hkey (after : List Char) : skipSpace (stringChars k.toList ++ ':' :: after)
        = '"' :: (k.toList.flatMap stringChar ++ '"' :: ':' :: after) := by
      have hform : stringChars k.toList ++ ':' :: after
          = '"' :: (k.toList.flatMap stringChar ++ '"' :: ':' :: after) := by
        simp [stringChars]
      rw [hform]
      exact skipSpace_cons (by decide) _
    have hcolon (after : List Char) : skipSpace (':' :: after) = ':' :: after :=
      skipSpace_cons (by decide) after
    cases entries with
    | nil =>
      simp only [entriesChars, List.append_assoc, List.cons_append, List.length_append,
        List.length_cons] at hfuel ⊢
      have hread := hvalues v ('\x7d' :: rest) hall.1 (by omega) (ends_brace rest)
      simp only [members, hkey, stringBody_chars, wellFormed, bind, Except.bind, hcolon,
        skipSpace_append hgap, skipSpace_chars hall.1, hread, skipSpace_ends (ends_brace rest),
        String.ofList_toList, hput]
      rfl
    | cons e entries =>
      simp only [entriesChars, List.append_assoc, List.cons_append, List.length_append,
        List.length_cons] at hfuel ⊢
      have hread := hvalues v (',' :: (gap ++ (entriesChars gap (e :: entries) ++ '\x7d' :: rest)))
        hall.1 (by omega) (ends_comma _)
      have hrest := hmembers (e :: entries) (done ++ [(k, v)]) rest hall.2 (by simp)
        (by simpa using hnodup) (by omega)
      simp only [members, hkey, stringBody_chars, wellFormed, bind, Except.bind, hcolon,
        skipSpace_append hgap, skipSpace_chars hall.1, hread, skipSpace_ends (ends_comma _),
        String.ofList_toList, hput, members_append hgap, hrest]
      simp

theorem reads (hgap : Blank gap) (room fuel : Nat) :
    ReadsValues gap room fuel ∧ ReadsItems gap room fuel ∧ ReadsMembers gap room fuel := by
  induction fuel generalizing room with
  | zero =>
    refine ⟨?_, ?_, ?_⟩
    · intro v rest hv hfuel
      obtain ⟨c, cs, hcs, -⟩ := chars_cons gap hv
      rw [hcs] at hfuel
      simp at hfuel
    · intro items rest _ _ hfuel
      omega
    · intro entries done rest _ _ _ hfuel
      omega
  | succ fuel ih =>
    obtain ⟨hvalues, hitems, hmembers⟩ := ih room
    exact ⟨readsValues_succ (fun room => (ih room).2.1) fun room => (ih room).2.2,
      readsItems_succ hgap hvalues hitems, readsMembers_succ hgap hvalues hmembers⟩

/-- A value that JSON holds is read back from its text, with whatever gaps. -/
theorem load_charsWith (hgap : Blank gap) {v : Value} (h : Readable callRoom v) :
    load (charsWith gap v) = .ok v := by
  have hread := (reads hgap callRoom (2 * (charsWith gap v).length + 2)).1 v [] h (by omega)
    (by intro c hc; cases hc)
  have hskip : skipSpace (charsWith gap v ++ []) = charsWith gap v ++ [] := skipSpace_chars h []
  rw [List.append_nil] at hread hskip
  exact readWith_eq_ok.2 ⟨[], by rw [hskip, hread], rfl⟩

end Gap

/-- A value that JSON holds is read back from its text. -/
theorem load_chars {v : Value} (h : Readable callRoom v) : load (chars v) = .ok v :=
  load_charsWith (by simp [Blank]) h

/-- It is also read back from the text with blanks. -/
theorem read?_writeSpaced {v : Value} (h : Readable callRoom v) :
    read? (writeSpaced v).toList = some v := by
  rw [writeSpaced, String.toList_ofList]
  exact read?_eq_some.2 (load_charsWith (by simp [Blank]; decide) h)

end RecordQuery.Json
