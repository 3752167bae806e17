import RecordQuery.Coercion
import RecordQuery.Proofs.CalendarText
import RecordQuery.Proofs.PageLinks
import RecordQuery.Response.Serialized

/-!
# Values that are sent back

An answer shows a value by its text, and a request may give that text as an operand.

* `Number.readInt_intChars`: an integer is read back from its text, if its digits are not too many.
* `DateTime.plain_of_mem_iso`: the text of a time is free of blanks and of the letter for UTC.
* `Value.coerce_serialized`: the text that an answer shows of a value is brought back to the value,
  a time in UTC if its text tells no offset.
* `Value.coerce_serialized_halfSecond`: it tells no offset of less than a second.
-/

namespace RecordQuery

open RecordQuery.Number RecordQuery.Calendar RecordQuery.Text

/-! ## Plain texts -/

section Plain

variable {cs : List Char} (h : ∀ c ∈ cs, 0x21 ≤ c.toNat ∧ c.toNat < 0x80)

include h

theorem Text.trimChars_of_plain : trimChars cs = cs :=
  stripChars_of_forall fun c hc => isBlank_of_plain (h c hc)

theorem Number.stripAround_of_plain : stripAround cs = cs := by
  have hall : cs.all (·.toNat < 0x80) = true := by
    rw [List.all_eq_true]
    exact fun c hc => decide_eq_true (h c hc).2
  rw [stripAround, if_pos hall]
  refine stripChars_of_forall fun c hc => ?_
  have hplain := h c hc
  have hspace : c ≠ ' ' := by
    rintro rfl
    exact absurd hplain.1 (by decide)
  have hline : ¬ c.toNat ≤ 0x0D := by omega
  simp [hspace, hline]

theorem Value.trimmedOrEmpty_of_plain : (Value.text (.ofList cs)).trimmedOrEmpty = cs := by
  by_cases hempty : cs = []
  · subst hempty
    rfl
  · have htruthy : (Value.text (.ofList cs)).isTruthy = true := by
      simp [Value.isTruthy, hempty]
    rw [Value.trimmedOrEmpty, if_pos htruthy, Value.chars, String.toList_ofList,
      trimChars_of_plain h]

theorem Value.trimmed_of_plain : (Value.text (.ofList cs)).trimmed = cs := by
  rw [Value.trimmed, Value.chars, String.toList_ofList, trimChars_of_plain h]
  intro hnull
  cases hnull

end Plain

/-! ## Integers -/

namespace Number

theorem mem_intChars {n : Int} {c : Char} (h : c ∈ intChars n) :
    isAsciiDigit c = true ∨ c = '-' := by
  cases n with
  | ofNat n => exact .inl (isAsciiDigit_of_mem_natDigits h)
  | negSucc n =>
    rcases List.mem_cons.1 h with rfl | h
    · exact .inr rfl
    · exact .inl (isAsciiDigit_of_mem_natDigits h)

theorem plain_of_mem_intChars {n : Int} {c : Char} (h : c ∈ intChars n) :
    0x21 ≤ c.toNat ∧ c.toNat < 0x80 := by
  rcases mem_intChars h with h | rfl
  · have := toNat_of_isAsciiDigit h
    omega
  · decide

/-- The sign and the digits of an integer are told apart. -/
theorem splitSign_intChars (n : Int) :
    splitSign (intChars n) = (decide (n < 0), natDigits n.natAbs) := by
  cases n with
  | ofNat n =>
    rw [intChars, splitSign_digits fun c => isDigit_of_mem_natDigits]
    simp
  | negSucc n =>
    have hneg : decide (Int.negSucc n < 0) = true := decide_eq_true (Int.negSucc_lt_zero n)
    rw [hneg]
    rfl

theorem ungroup_intChars (n : Int) : ungroup (intChars n) = some (intChars n) := by
  cases n with
  | ofNat n => exact ungroupFrom_digits (fun c => isDigit_of_mem_natDigits) (by decide)
  | negSucc n =>
    rw [ungroup, intChars, ungroupFrom, if_neg (by decide), if_neg (by decide),
      ungroupFrom_digits (fun c => isDigit_of_mem_natDigits) (by decide)]
    rfl

/-- An integer is read back from its text just if its digits are not too many. -/
theorem readInt_intChars (n : Int) :
    readInt (intChars n)
      = if (natDigits n.natAbs).length ≤ maxDigits then some n else none := by
  have hplain : ∀ c ∈ intChars n, 0x21 ≤ c.toNat ∧ c.toNat < 0x80 :=
    fun c => plain_of_mem_intChars
  have hascii : asciiDigits (intChars n) = intChars n :=
    asciiDigits_of_ascii fun c hc => (hplain c hc).2
  rw [readInt, stripAround_of_plain hplain, hascii, ungroup_intChars, Option.bind_eq_bind,
    Option.bind_some, splitSign_intChars]
  simp only [readNat_natDigits]
  by_cases hlong : (natDigits n.natAbs).length ≤ maxDigits
  · rw [if_neg (Nat.not_lt.2 hlong), if_pos hlong]
    refine congrArg some ?_
    by_cases hneg : n < 0
    · rw [if_pos (decide_eq_true hneg)]
      omega
    · rw [if_neg (by simpa using hneg)]
      omega
  · rw [if_pos (Nat.not_le.1 hlong), if_neg hlong]

end Number

/-! ## Days and times -/

namespace Calendar

theorem TimeOfDay.mem_chars {t : TimeOfDay} {c : Char} (h : c ∈ t.chars) :
    isAsciiDigit c = true ∨ c = ':' ∨ c = '.' := by
  simp only [TimeOfDay.chars, List.mem_append, List.mem_cons] at h
  rcases h with ((h | rfl | h) | rfl | h) | h
  · exact .inl (isAsciiDigit_of_mem_padded h)
  · exact .inr (.inl rfl)
  · exact .inl (isAsciiDigit_of_mem_padded h)
  · exact .inr (.inl rfl)
  · exact .inl (isAsciiDigit_of_mem_padded h)
  · split at h
    · cases h
    · rcases List.mem_cons.1 h with rfl | h
      · exact .inr (.inr rfl)
      · exact .inl (isAsciiDigit_of_mem_padded h)

/-- An offset is shown by its sign and a clock, whose seconds may be missing. -/
theorem Offset.mem_chars {o : Offset} {c : Char} (h : c ∈ o.chars) :
    c = '-' ∨ c = '+' ∨ isAsciiDigit c = true ∨ c = ':' ∨ c = '.' := by
  simp only [Offset.chars, List.cons_append, List.mem_cons, List.mem_append] at h
  rcases h with h | (h | rfl | h) | h
  · rw [h]
    split
    · exact .inl rfl
    · exact .inr (.inl rfl)
  · exact .inr (.inr (.inl (isAsciiDigit_of_mem_padded h)))
  · exact .inr (.inr (.inr (.inl rfl)))
  · exact .inr (.inr (.inl (isAsciiDigit_of_mem_padded h)))
  · split at h
    · cases h
    · simp only [List.mem_append, List.mem_cons] at h
      rcases h with rfl | h | h
      · exact .inr (.inr (.inr (.inl rfl)))
      · exact .inr (.inr (.inl (isAsciiDigit_of_mem_padded h)))
      · split at h
        · cases h
        · rcases List.mem_cons.1 h with rfl | h
          · exact .inr (.inr (.inr (.inr rfl)))
          · exact .inr (.inr (.inl (isAsciiDigit_of_mem_padded h)))

theorem DateTime.mem_iso {t : DateTime} {separator c : Char} (h : c ∈ t.iso separator) :
    c = separator ∨ isAsciiDigit c = true ∨ c ∈ ['-', '+', ':', '.'] := by
  rw [DateTime.iso_eq] at h
  simp only [List.mem_append, List.mem_cons] at h
  rcases h with h | rfl | h | h
  · rcases Date.isAscii_chars h with h | rfl
    · exact .inr (.inl h)
    · exact .inr (.inr (by decide))
  · exact .inl rfl
  · rcases TimeOfDay.mem_chars h with h | rfl | rfl
    · exact .inr (.inl h)
    · exact .inr (.inr (by decide))
    · exact .inr (.inr (by decide))
  · cases ho : t.offset with
    | none =>
      rw [ho] at h
      cases h
    | some o =>
      rw [ho] at h
      rcases Offset.mem_chars h with rfl | rfl | h | rfl | rfl
      · exact .inr (.inr (by decide))
      · exact .inr (.inr (by decide))
      · exact .inr (.inl h)
      · exact .inr (.inr (by decide))
      · exact .inr (.inr (by decide))

/-- The text of a time has no blanks, and no letter but the one between the day and the clock. -/
theorem DateTime.plain_of_mem_iso {t : DateTime} {c : Char} (h : c ∈ t.iso 'T') :
    (0x21 ≤ c.toNat ∧ c.toNat < 0x80) ∧ c ≠ 'Z' := by
  rcases mem_iso h with rfl | h | h
  · decide
  · have hdigit := toNat_of_isAsciiDigit h
    refine ⟨by omega, ?_⟩
    rintro rfl
    exact absurd hdigit (by decide)
  · simp only [List.mem_cons, List.not_mem_nil, or_false] at h
    rcases h with rfl | rfl | rfl | rfl
    all_goals decide

theorem Date.plain_of_mem_chars {d : Date} {c : Char} (h : c ∈ d.chars) :
    0x21 ≤ c.toNat ∧ c.toNat < 0x80 := by
  rcases Date.isAscii_chars h with h | rfl
  · have := toNat_of_isAsciiDigit h
    omega
  · decide

/-- An offset that the text of a time tells: none at all, or one that is not less than a second. -/
def Offset.Told (o : Offset) : Prop := o.micros = 0 ∨ microsPerSecond ≤ o.micros.natAbs

instance (o : Offset) : Decidable o.Told := inferInstanceAs (Decidable (_ ∨ _))

/-- The time without an offset that its text does not tell. -/
def DateTime.asTold (t : DateTime) : DateTime :=
  { t with offset := t.offset.filter fun o => o.Told }

/-- The offset that is read from a text is UTC where the text tells none. -/
theorem DateTime.orUtc_counted (t : DateTime) :
    ({ t with offset := t.offset.map Offset.counted } : DateTime).orUtc = t.asTold.orUtc := by
  obtain ⟨date, time, offset⟩ := t
  cases offset with
  | none => rfl
  | some o =>
    by_cases htold : o.Told
    · have hcounted : o.counted = o := (Offset.counted_eq_self_iff o).2 htold
      simp [asTold, orUtc, hcounted, Option.filter, htold]
    · have hshort : o.micros.natAbs < microsPerSecond :=
        Nat.not_le.1 fun hlong => htold (.inr hlong)
      have hcounted : o.counted = .utc := if_pos hshort
      simp [asTold, orUtc, hcounted, Option.filter, htold]

end Calendar

/-! ## Texts as operands -/

namespace Coercion

theorem boolean_text (b : Bool) : boolean (.text (Value.bool b).toText) = .ok b := by
  cases b <;> decide +kernel

theorem integer_intText {n : Int} (h : (natDigits n.natAbs).length ≤ maxDigits) :
    integer (.text (intText n)) = .ok n := by
  have hcomma : (intChars n).map (fun c => if c = ',' then '.' else c) = intChars n := by
    refine (List.map_congr_left fun c hc => if_neg ?_).trans (List.map_id' _)
    rintro rfl
    rcases mem_intChars hc with h | h
    · exact absurd h (by decide)
    · exact absurd h (by decide)
  have hnumeral : numeral (.text (intText n)) = intChars n := by
    rw [numeral, intText, Value.trimmed_of_plain fun c => plain_of_mem_intChars, hcomma]
  simp only [integer, hnumeral, readInt_intChars, if_pos h]
  rfl

theorem date_text (d : Date) : date (.text d.text) = .ok d := by
  have htrim : (Value.text d.text).trimmedOrEmpty = d.chars :=
    Value.trimmedOrEmpty_of_plain fun c => Date.plain_of_mem_chars
  have hday : hasTime d.chars = false := by
    have hnot {c : Char} (hdigit : isAsciiDigit c = false) (hdash : c ≠ '-') : c ∉ d.chars := by
      intro hc
      rcases Date.isAscii_chars hc with h | h
      · rw [hdigit] at h
        cases h
      · exact hdash h
    simp [hasTime, hnot (c := 'T') (by decide) (by decide), hnot (c := ' ') (by decide) (by decide)]
  simp only [date, htrim, hday, Bool.false_eq_true, if_false, Iso.readDate?_chars]
  rfl

/-- The text of a time is read, though its offset only as far as the text tells one. -/
theorem datetime_text (t : DateTime) : datetime (.text t.text) = .ok t.asTold.orUtc := by
  have htrim : (Value.text t.text).trimmedOrEmpty = t.iso 'T' :=
    Value.trimmedOrEmpty_of_plain fun c hc => (DateTime.plain_of_mem_iso hc).1
  have htime : hasTime (t.iso 'T') = true := by
    have hmem : 'T' ∈ t.iso 'T' := by simp [DateTime.iso_eq]
    simp [hasTime, hmem]
  have hspelled : spellOutUtc (t.iso 'T') = t.iso 'T' :=
    replaceAll_of_not_mem fun hz => (DateTime.plain_of_mem_iso hz).2 rfl
  have hread := Iso.readDateTime?_text t
  rw [DateTime.text, String.toList_ofList] at hread
  simp only [datetime, htrim, htime, hspelled, hread, Bool.not_true, Bool.false_and,
    Bool.false_eq_true, if_false, found, Except.map]
  rw [DateTime.orUtc_counted]

theorem uuid_text (u : Uuid) : uuid (.text u.text) = .ok u := by
  have htrim : (Value.text u.text).trimmedOrEmpty = u.chars := by
    refine Value.trimmedOrEmpty_of_plain fun c hc => ?_
    rcases Uuid.mem_chars hc with h | rfl
    · have := Uuid.toNat_of_isHexChar h
      omega
    · decide
  simp only [uuid, htrim, Uuid.read?_chars]
  rfl

theorem option_text {options : List String} {s : String} (hmem : s ∈ options)
    (htrim : trimChars s.toList = s.toList) : option options (.text s) = .ok s := by
  have htrimmed : (Value.text s).trimmed = s.toList := htrim
  simp only [option, htrimmed, String.ofList_toList, if_pos hmem]
  rfl

end Coercion

/-! ## Values of columns -/

/-- The values of a column that are known by their texts: an integer is short enough to be written,
and an option has no blanks at its ends. -/
inductive Kind.Shows (options : List String) : Kind → Value → Prop where
  | text (s : String) : Shows options .text (.text s)
  | integer {n : Int} (h : (natDigits n.natAbs).length ≤ maxDigits) :
    Shows options .integer (.int n)
  | boolean (b : Bool) : Shows options .boolean (.bool b)
  | date (d : Date) : Shows options .date (.date d)
  | datetime (t : DateTime) : Shows options .datetime (.datetime t)
  | uuid (u : Uuid) : Shows options .uuid (.uuid u)
  | enum {s : String} (hmem : s ∈ options) (htrim : trimChars s.toList = s.toList) :
    Shows options .enum (.text s)

namespace Value

/-- The value with its time in UTC where it has no offset. -/
def inUtc : Value → Value
  | .datetime t => .datetime t.orUtc
  | v => v

/-- The value without an offset that its text does not tell. -/
def asTold : Value → Value
  | .datetime t => .datetime t.asTold
  | v => v

variable {options : List String} {kind : Kind} {v : Value}

/-- What an answer shows of a value is brought back to the value by its text. A time comes back at
its own wall clock: with its offset, or in UTC if its text tells none. -/
theorem coerce_serialized (h : kind.Shows options v) :
    ∃ w, v.serialized = .ok w ∧ coerce kind options (.text w.toText) = .ok v.asTold.inUtc := by
  have htext (s : String) : (Value.text s).toText = s := String.ofList_toList
  cases h with
  | text s => exact ⟨.text s, rfl, by rw [htext]; exact congrArg _ (congrArg _ (htext s))⟩
  | integer h => exact ⟨_, rfl, by rw [coerce]; exact congrArg _ (Coercion.integer_intText h)⟩
  | boolean b => exact ⟨_, rfl, by rw [coerce, Coercion.boolean_text]; rfl⟩
  | date d => exact ⟨_, rfl, by rw [htext, coerce, Coercion.date_text]; rfl⟩
  | datetime t => exact ⟨_, rfl, by rw [htext, coerce, Coercion.datetime_text]; rfl⟩
  | uuid u => exact ⟨_, rfl, by rw [htext, coerce, Coercion.uuid_text]; rfl⟩
  | enum hmem htrim =>
    exact ⟨_, rfl, by rw [htext, coerce, Coercion.option_text hmem htrim]; rfl⟩

/-- The last microsecond of a leap day, on a clock that is behind UTC by a second and a half. -/
def leapDay : DateTime where
  date := { year := 2016, month := 2, day := 29 }
  time := { hour := 23, minute := 59, second := 59, micro := 999999 }
  offset := some { micros := -1500000 }

theorem coerce_serialized_leapDay :
    Kind.Shows [] .datetime (.datetime leapDay) ∧
      ∃ w, (Value.datetime leapDay).serialized = .ok w ∧
        coerce .datetime [] (.text w.toText) = .ok (.datetime leapDay) :=
  ⟨.datetime leapDay, coerce_serialized (.datetime leapDay)⟩

/-- The start of a month on a clock that is ahead of UTC by half a second. -/
def halfSecond : DateTime where
  date := { year := 2025, month := 3, day := 1 }
  offset := some { micros := 500000 }

/-- Not every value comes back with the offset that it has. -/
theorem coerce_serialized_halfSecond :
    ¬ ∀ options kind v, Kind.Shows options kind v →
      ∃ w, v.serialized = .ok w ∧ coerce kind options (.text w.toText) = .ok v.inUtc := by
  intro h
  obtain ⟨w, hw, hback⟩ := h [] .datetime _ (.datetime halfSecond)
  obtain rfl : w = .text halfSecond.text := (Except.ok.inj hw).symm
  have hread : coerce .datetime [] (.text halfSecond.text)
      = .ok (.datetime halfSecond.asTold.orUtc) := by
    rw [coerce, Coercion.datetime_text]
    rfl
  have hsame : halfSecond.asTold.orUtc = halfSecond := by
    rw [toText, chars, String.ofList_toList, hread] at hback
    exact Value.datetime.inj (Except.ok.inj hback)
  exact absurd hsame (by decide +kernel)

end Value
end RecordQuery
