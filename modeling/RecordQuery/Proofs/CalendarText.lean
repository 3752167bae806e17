import RecordQuery.Calendar.Iso
import RecordQuery.Proofs.Digits
import RecordQuery.Store.Column

/-!
# Dates and times are read back

* `Iso.readDate?_text`: a day is read back from its text.
* `Iso.readDateTime?_clock`: so is a time that follows a day, in either of its forms.
* `Iso.readDateTime?_text`: and a time with an offset, unless the offset is a part of a second.
* `Iso.readDateTime?_momentText`: what a store writes of a time is read as a time without offset.
* `DateTime.clock_of_text`: times with one text have the same day and the same time of day.
-/

namespace RecordQuery.Calendar

open RecordQuery.Number

/-! ## Parts of fixed width -/

theorem fixedDigits_append {width n : Nat} {digits : List Char} (hlength : digits.length = width)
    (hdigits : digitsFrom 0 digits = some n) (rest : List Char) :
    Iso.fixedDigits width (digits ++ rest) = some (n, rest) := by
  unfold Iso.fixedDigits
  rw [if_neg (by simp [hlength]), List.take_left' hlength, List.drop_left' hlength, hdigits]
  rfl

theorem fixedDigits_padded {width n : Nat} (hwidth : 0 < width) (h : n < 10 ^ width)
    (rest : List Char) : Iso.fixedDigits width (padded width n ++ rest) = some (n, rest) :=
  fixedDigits_append (length_padded hwidth h) (digitsFrom_padded width n) rest

/-- The first character of a number of fixed width. -/
theorem padded_cons (width n : Nat) :
    ∃ c cs, padded width n = c :: cs ∧ isAsciiDigit c = true := by
  cases h : padded width n with
  | nil => exact absurd h (padded_ne_nil width n)
  | cons c cs => exact ⟨c, cs, rfl, isAsciiDigit_of_mem_padded (h ▸ List.mem_cons_self)⟩

theorem ValidDate.bounds {year month day : Nat} (h : ValidDate year month day) :
    year < 10 ^ 4 ∧ month < 10 ^ 2 ∧ day < 10 ^ 2 := by
  obtain ⟨⟨-, hyear⟩, ⟨-, hmonth⟩, -, hday⟩ := h
  have hdays : daysInMonth year month ≤ 31 := by
    unfold daysInMonth
    split
    · split <;> omega
    · split <;> omega
  omega

theorem Date.length_chars (d : Date) : d.chars.length = 10 := by
  obtain ⟨hyear, hmonth, hday⟩ := d.valid.bounds
  simp only [Date.chars, List.length_append, List.length_cons, length_padded (by omega) hyear,
    length_padded (by omega) hmonth, length_padded (by omega) hday]

theorem Date.isAscii_chars {d : Date} {c : Char} (h : c ∈ d.chars) :
    isAsciiDigit c = true ∨ c = '-' := by
  simp only [Date.chars, List.mem_append, List.mem_cons] at h
  rcases h with (h | rfl | h) | rfl | h
  · exact .inl (isAsciiDigit_of_mem_padded h)
  · exact .inr rfl
  · exact .inl (isAsciiDigit_of_mem_padded h)
  · exact .inr rfl
  · exact .inl (isAsciiDigit_of_mem_padded h)

namespace Iso

/-! ## Days -/

theorem dayOf_chars (d : Date) : dayOf d.chars = some d := by
  obtain ⟨year, month, day, hvalid⟩ := d
  obtain ⟨hyear, hmonth, hday⟩ := hvalid.bounds
  obtain ⟨c, cs, hc, hdigit⟩ := padded_cons 2 month
  have hw : c ≠ 'W' := by
    rintro rfl
    exact absurd hdigit (by decide)
  have hmonthDigits := fixedDigits_padded (by omega) hmonth ('-' :: padded 2 day)
  have hdayDigits := fixedDigits_padded (by omega) hday []
  rw [List.append_nil] at hdayDigits
  simp only [dayOf, Date.chars, List.append_assoc, List.cons_append,
    fixedDigits_padded (by omega) hyear, bind, Option.bind, List.head?_cons, decide_true, if_true,
    List.drop_succ_cons, List.drop_zero]
  rw [hc, List.cons_append] at hmonthDigits ⊢
  split
  · rename_i h
    exact absurd (List.cons.inj h).1 hw
  · simp only [hmonthDigits, skipDash, if_true, hdayDigits, Date.ofParts?, hvalid, dite_true]

theorem size_of_ascii {cs : List Char} (h : ∀ c ∈ cs, c.toNat < 0x80) : size cs = cs.length := by
  induction cs with
  | nil => rfl
  | cons c cs ih =>
    have hc : c.utf8Size = 1 := by
      have hsmall := h c List.mem_cons_self
      exact Char.utf8Size_eq_one_iff.2 (by
        rw [UInt32.le_iff_toNat_le]
        exact Nat.le_of_lt_succ hsmall)
    have htail := ih fun d hd => h d (List.mem_cons_of_mem _ hd)
    simp only [size, List.foldr_cons, List.length_cons] at htail ⊢
    omega

theorem toNat_lt_of_date {d : Date} {c : Char} (h : c ∈ d.chars) : c.toNat < 0x80 := by
  rcases Date.isAscii_chars h with h | rfl
  · have := (toNat_of_isAsciiDigit h).2
    omega
  · decide

/-- A day is read back from its text. -/
theorem readDate?_chars (d : Date) : readDate? d.chars = some d := by
  rw [readDate?, size_of_ascii fun c hc => toNat_lt_of_date hc, d.length_chars]
  exact dayOf_chars d

/-! ## Times of day -/

/-- The decimals of a second as a time of day shows them: six of them, or none for a whole one. -/
def ShowsMicros (t : TimeOfDay) (tail : List Char) : Prop :=
  (tail = [] ∧ t.micro = 0) ∨ tail = '.' :: padded 6 t.micro

theorem showsMicros_chars (t : TimeOfDay) :
    ShowsMicros t (if t.micro = 0 then [] else '.' :: padded 6 t.micro) := by
  by_cases hzero : t.micro = 0
  · exact .inl ⟨if_pos hzero, hzero⟩
  · exact .inr (if_neg hzero)

theorem fractionOf_padded {clock : Clock} {micro : Nat} (h : micro < 10 ^ 6) :
    fractionOf clock (padded 6 micro) = some { clock with micro, leftover := false } := by
  have hlength := length_padded (by omega) h
  have htake : (padded 6 micro).take 6 = padded 6 micro := List.take_of_length_le (by omega)
  have hdrop : (padded 6 micro).drop 6 = [] := List.drop_eq_nil_of_le (by omega)
  have hall : (padded 6 micro).all isAsciiDigit = true := by
    rw [List.all_eq_true]
    exact fun c hc => isAsciiDigit_of_mem_padded hc
  simp only [fractionOf, htake, hdrop, hall, hlength, if_true, Nat.sub_self, List.replicate_zero,
    List.append_nil, digitsFrom_padded, bind, Option.bind, List.dropWhile_nil, List.isEmpty_nil]
  rfl

theorem next_colon {width n : Nat} {rest : List Char} :
    next true (':' :: (padded width n ++ rest)) = .more (padded width n ++ rest) := by
  obtain ⟨c, cs, hc, -⟩ := padded_cons width n
  rw [hc]
  rfl

/-- A clock is read back from its readings. -/
theorem clockOf_time {t : TimeOfDay} {tail : List Char} (htail : ShowsMicros t tail) :
    clockOf (padded 2 t.hour ++ ':' :: padded 2 t.minute ++ ':' :: padded 2 t.second ++ tail)
      = some { hour := t.hour, minute := t.minute, second := t.second, micro := t.micro } := by
  obtain ⟨hhour, hminute, hsecond, hmicro⟩ := t.valid
  simp only [clockOf, List.append_assoc, List.cons_append,
    fixedDigits_padded (show 0 < 2 by omega) (show t.hour < 10 ^ 2 by omega), bind, Option.bind,
    List.head?_cons, decide_true, next_colon,
    fixedDigits_padded (show 0 < 2 by omega) (show t.minute < 10 ^ 2 by omega),
    fixedDigits_padded (show 0 < 2 by omega) (show t.second < 10 ^ 2 by omega)]
  rcases htail with ⟨rfl, hzero⟩ | rfl
  · rw [hzero]
    rfl
  · obtain ⟨c, cs, hc, -⟩ := padded_cons 6 t.micro
    have hnext : next true ('.' :: padded 6 t.micro) = .fraction (padded 6 t.micro) := by
      rw [hc]
      rfl
    rw [hnext]
    exact fractionOf_padded (by omega)

/-- A clock holds no sign of an offset. -/
theorem plain_time {t : TimeOfDay} {tail : List Char} (htail : ShowsMicros t tail) :
    ∀ c ∈ padded 2 t.hour ++ ':' :: padded 2 t.minute ++ ':' :: padded 2 t.second ++ tail,
      (decide (c ≠ '+' ∧ c ≠ '-' ∧ c ≠ 'Z')) = true := by
  have hdigit {c : Char} (h : isAsciiDigit c = true) : c ≠ '+' ∧ c ≠ '-' ∧ c ≠ 'Z' := by
    refine ⟨?_, ?_, ?_⟩
    all_goals
      rintro rfl
      exact absurd h (by decide)
  intro c hc
  rw [decide_eq_true_eq]
  simp only [List.mem_append, List.mem_cons] at hc
  rcases hc with ((hc | rfl | hc) | rfl | hc) | hc
  · exact hdigit (isAsciiDigit_of_mem_padded hc)
  · decide
  · exact hdigit (isAsciiDigit_of_mem_padded hc)
  · decide
  · exact hdigit (isAsciiDigit_of_mem_padded hc)
  · rcases htail with ⟨rfl, -⟩ | rfl
    · cases hc
    · rcases List.mem_cons.1 hc with rfl | hc
      · decide
      · exact hdigit (isAsciiDigit_of_mem_padded hc)

/-- A time of day is read back, with the offset that follows it. -/
theorem timeOf_append {t : TimeOfDay} {tail : List Char} (htail : ShowsMicros t tail) {sign : Char}
    (hsign : sign = '-' ∨ sign = '+') (after : List Char) :
    timeOf (padded 2 t.hour ++ ':' :: padded 2 t.minute ++ ':' :: padded 2 t.second ++ tail ++
      sign :: after) = (offsetOf (sign = '-') after).map fun o => (t, some o) := by
  have hclock := clockOf_time htail
  have hplain := plain_time htail
  generalize padded 2 t.hour ++ ':' :: padded 2 t.minute ++ ':' :: padded 2 t.second ++ tail = cs
    at hclock hplain ⊢
  have hbefore : (cs ++ sign :: after).takeWhile (fun c => decide (c ≠ '+' ∧ c ≠ '-' ∧ c ≠ 'Z'))
      = cs := by
    rw [List.takeWhile_append_of_pos hplain, List.takeWhile_cons_of_neg, List.append_nil]
    rcases hsign with rfl | rfl <;> decide
  have hvalid := t.valid
  have htime : TimeOfDay.ofParts? t.hour t.minute t.second t.micro = some t := by
    rw [TimeOfDay.ofParts?, dif_pos hvalid]
  -- The sign is not the letter for UTC, which has a form of its own.
  have hzone : sign ≠ 'Z' := by
    rcases hsign with rfl | rfl <;> decide
  simp only [timeOf, hbefore, hclock, bind, Option.bind, List.drop_left, htime]
  cases offsetOf (decide (sign = '-')) after <;> rfl

theorem timeOf_time {t : TimeOfDay} {tail : List Char} (htail : ShowsMicros t tail) :
    timeOf (padded 2 t.hour ++ ':' :: padded 2 t.minute ++ ':' :: padded 2 t.second ++ tail)
      = some (t, none) := by
  have hclock := clockOf_time htail
  have hplain := plain_time htail
  generalize padded 2 t.hour ++ ':' :: padded 2 t.minute ++ ':' :: padded 2 t.second ++ tail = cs
    at hclock hplain ⊢
  have hbefore : cs.takeWhile (fun c => decide (c ≠ '+' ∧ c ≠ '-' ∧ c ≠ 'Z')) = cs :=
    List.takeWhile_eq_self_iff.2 hplain
  have hvalid := t.valid
  simp only [timeOf, hbefore, hclock, bind, Option.bind, List.drop_length, Bool.false_eq_true,
    if_false, TimeOfDay.ofParts?, dif_pos hvalid]
  rfl

/-! ## Offsets -/

/-- A clock without seconds is read back from its readings. -/
theorem clockOf_minutes {hour minute : Nat} (hhour : hour < 10 ^ 2) (hminute : minute < 10 ^ 2) :
    clockOf (padded 2 hour ++ ':' :: padded 2 minute) = some { hour, minute } := by
  have hminutes := fixedDigits_padded (show 0 < 2 by omega) hminute []
  rw [List.append_nil] at hminutes
  simp only [clockOf, fixedDigits_padded (show 0 < 2 by omega) hhour, bind, Option.bind,
    List.head?_cons, decide_true]
  rw [← List.append_nil (padded 2 minute), next_colon, List.append_nil]
  simp only [hminutes]
  rfl

end Iso

namespace Offset

/-- The readings of a clock that shows the distance from UTC. -/
def clock (o : Offset) : TimeOfDay where
  hour := o.micros.natAbs / microsPerSecond / 3600
  minute := o.micros.natAbs / microsPerSecond / 60 % 60
  second := o.micros.natAbs / microsPerSecond % 60
  micro := o.micros.natAbs % microsPerSecond
  valid := by
    have hvalid := o.valid
    have hday : o.micros.natAbs / microsPerSecond < 86400 :=
      Nat.div_lt_of_lt_mul (by rw [Nat.mul_comm]; exact hvalid)
    have hmicro : o.micros.natAbs % microsPerSecond < 1000000 := Nat.mod_lt _ (by decide)
    omega

theorem clock_seconds (o : Offset) :
    (o.clock.hour * 60 + o.clock.minute) * 60 + o.clock.second
      = o.micros.natAbs / microsPerSecond := by
  simp only [clock]
  omega

theorem clock_micros (o : Offset) : o.clock.micros = o.micros.natAbs := by
  rw [TimeOfDay.micros, clock_seconds, Nat.mul_comm]
  exact Nat.div_add_mod _ _

/-- The offset that the text of an offset is read as: less than a second counts as none. -/
def counted (o : Offset) : Offset := if o.micros.natAbs < microsPerSecond then .utc else o

theorem counted_eq_self_iff (o : Offset) :
    o.counted = o ↔ o.micros = 0 ∨ microsPerSecond ≤ o.micros.natAbs := by
  unfold counted
  split
  · rename_i hsmall
    constructor
    · rintro rfl
      exact .inl rfl
    · rintro (hzero | hlarge)
      · obtain ⟨micros, hvalid⟩ := o
        obtain rfl : micros = 0 := hzero
        rfl
      · exact absurd hlarge (Nat.not_le_of_lt hsmall)
  · rename_i hlarge
    exact ⟨fun _ => .inr (Nat.le_of_not_lt hlarge), fun _ => rfl⟩

theorem micros_eq (o : Offset) :
    (if o.micros < 0 then -(o.micros.natAbs : Int) else (o.micros.natAbs : Int)) = o.micros := by
  split <;> omega

end Offset

namespace Iso

/-- What follows the sign of an offset is the text of a clock. -/
theorem chars_offset (o : Offset) :
    ∃ after, o.chars = (if o.micros < 0 then '-' else '+') :: after ∧
      clockOf after = some {
        hour := o.clock.hour, minute := o.clock.minute
        second := o.clock.second, micro := o.clock.micro } := by
  obtain ⟨hhour, hminute, -⟩ := o.clock.valid
  by_cases hshort : o.clock.second = 0 ∧ o.clock.micro = 0
  · refine ⟨padded 2 o.clock.hour ++ ':' :: padded 2 o.clock.minute, ?_, ?_⟩
    · have hshort' : o.micros.natAbs / microsPerSecond % 60 = 0
          ∧ o.micros.natAbs % microsPerSecond = 0 := hshort
      simp only [Offset.chars, if_pos hshort', List.append_nil]
      rfl
    · rw [clockOf_minutes (by omega) (by omega), hshort.1, hshort.2]
  · refine ⟨_, ?_, clockOf_time (showsMicros_chars o.clock)⟩
    have hlong : ¬ (o.micros.natAbs / microsPerSecond % 60 = 0
        ∧ o.micros.natAbs % microsPerSecond = 0) := hshort
    simp only [Offset.chars, if_neg hlong, List.append_assoc, List.cons_append]
    rfl

/-- An offset is read from its text, as far as it counts. -/
theorem offsetOf_chars (o : Offset) :
    ∃ sign after, o.chars = sign :: after ∧ (sign = '-' ∨ sign = '+') ∧
      offsetOf (sign = '-') after = some o.counted := by
  obtain ⟨after, hchars, hclock⟩ := chars_offset o
  refine ⟨_, after, hchars, ?_, ?_⟩
  · split
    · exact .inl rfl
    · exact .inr rfl
  · have hsign : decide ((if o.micros < 0 then '-' else '+') = '-') = decide (o.micros < 0) := by
      split <;> simp_all
    have hmicros : ((o.micros.natAbs / microsPerSecond : Nat) : Int) * (microsPerSecond : Int)
        + ((o.clock.micro : Nat) : Int) = o.micros.natAbs := by
      have := o.clock_micros
      rw [TimeOfDay.micros, o.clock_seconds] at this
      exact_mod_cast this
    simp only [offsetOf, hclock, bind, Option.bind, hsign, o.clock_seconds, Bool.false_eq_true,
      if_false, hmicros, decide_eq_true_eq]
    unfold Offset.counted
    by_cases hsmall : o.micros.natAbs < microsPerSecond
    · rw [if_pos hsmall, if_pos (Nat.div_eq_of_lt hsmall)]
      rfl
    · have hsome : o.micros.natAbs / microsPerSecond ≠ 0 :=
        Nat.pos_iff_ne_zero.1 (Nat.div_pos (Nat.le_of_not_lt hsmall) (by decide))
      rw [if_neg hsmall, if_neg hsome, o.micros_eq, Offset.ofMicros?, dif_pos o.valid]

/-! ## Days with a time -/

theorem length_le_size (cs : List Char) : cs.length ≤ size cs := by
  induction cs with
  | nil => simp
  | cons c cs ih =>
    have hc := Char.utf8Size_pos c
    simp only [size, List.foldr_cons, List.length_cons] at ih ⊢
    omega

/-- The time starts after the tenth character. -/
theorem separatorPlace_chars (d : Date) (rest : List Char) :
    separatorPlace (d.chars ++ rest) = 10 := by
  obtain ⟨hyear, hmonth, -⟩ := d.valid.bounds
  have hlength : 7 < size (d.chars ++ rest) := by
    have := length_le_size (d.chars ++ rest)
    rw [List.length_append, d.length_chars] at this
    omega
  have hyearLength := length_padded (show 0 < 4 by omega) hyear
  obtain ⟨c, cs, hc, hdigit⟩ := padded_cons 2 d.month
  have hw : c ≠ 'W' := by
    rintro rfl
    exact absurd hdigit (by decide)
  have hform : d.chars ++ rest
      = padded 4 d.year ++ '-' :: c :: (cs ++ '-' :: padded 2 d.day ++ rest) := by
    simp [Date.chars, hc]
  have hfour : (d.chars ++ rest)[4]? = some '-' := by
    rw [hform, List.getElem?_append_right (by omega), hyearLength]
    rfl
  have hfive : (d.chars ++ rest)[5]? = some c := by
    rw [hform, List.getElem?_append_right (by omega), hyearLength]
    rfl
  simp only [separatorPlace, hfour, hfive, if_true, Option.some.injEq, if_neg hw]
  rw [if_neg (by omega)]

/-- What follows a day and one more character is read as a time. -/
theorem readDateTime?_append (d : Date) (separator : Char) {clock : List Char} {t : TimeOfDay}
    {offset : Option Offset} (h : timeOf clock = some (t, offset)) :
    readDateTime? (d.chars ++ separator :: clock) = some { date := d, time := t, offset } := by
  have hsize : ¬ size (d.chars ++ separator :: clock) < 7 := by
    have := length_le_size (d.chars ++ separator :: clock)
    rw [List.length_append, d.length_chars] at this
    omega
  simp only [readDateTime?, if_neg hsize, separatorPlace_chars d,
    List.take_left' d.length_chars, dayOf_chars, bind, Option.bind,
    List.drop_left' d.length_chars, h]
  rfl

/-- A time is read back after its day and one more character. -/
theorem readDateTime?_clock (d : Date) (separator : Char) {t : TimeOfDay} {tail : List Char}
    (htail : ShowsMicros t tail) :
    readDateTime? (d.chars ++ separator ::
      (padded 2 t.hour ++ ':' :: padded 2 t.minute ++ ':' :: padded 2 t.second ++ tail))
      = some { date := d, time := t } :=
  readDateTime?_append d separator (timeOf_time htail)

/-- A time is read back from its text, with its offset as far as that counts. -/
theorem readDateTime?_text (t : DateTime) :
    readDateTime? t.text.toList = some { t with offset := t.offset.map Offset.counted } := by
  obtain ⟨date, time, offset⟩ := t
  have htail := showsMicros_chars time
  rw [DateTime.text, String.toList_ofList]
  cases offset with
  | none => simpa [DateTime.iso, TimeOfDay.chars] using readDateTime?_clock date 'T' htail
  | some o =>
    obtain ⟨sign, after, hchars, hsign, hoffset⟩ := offsetOf_chars o
    have htime := timeOf_append htail hsign after
    rw [hoffset, Option.map_some] at htime
    simpa [DateTime.iso, TimeOfDay.chars, hchars] using readDateTime?_append date 'T' htime

/-- What a store writes of a time is read as a time without an offset. -/
theorem readDateTime?_momentText (t : DateTime) :
    readDateTime? (Store.ColumnType.momentText t).toList
      = some { date := t.date, time := t.time } := by
  have hread := readDateTime?_clock t.date ' ' (t := t.time) (.inr rfl)
  rw [Store.ColumnType.momentText, String.toList_ofList]
  simpa [TimeOfDay.fullChars] using hread

end Iso
/-! ## Texts of times -/

theorem padded_injective {width m n : Nat} (h : padded width m = padded width n) : m = n := by
  have hread := digitsFrom_padded width m
  rw [h, digitsFrom_padded, Option.some.injEq] at hread
  exact hread.symm

theorem Date.chars_injective {d d' : Date} (h : d.chars = d'.chars) : d = d' := by
  have hread := Iso.readDate?_chars d
  rw [h, Iso.readDate?_chars, Option.some.injEq] at hread
  exact hread.symm

/-- An offset begins with its sign. -/
theorem Offset.head_chars (o : Offset) : ∀ c ∈ o.chars.head?, c = '-' ∨ c = '+' := by
  intro c hc
  unfold Offset.chars at hc
  split at hc
  · cases hc
    exact .inl rfl
  · cases hc
    exact .inr rfl

section Append

variable {rest other : List Char} (hrest : ∀ c ∈ rest.head?, c ≠ '.')
  (hother : ∀ c ∈ other.head?, c ≠ '.')

include hrest hother

/-- The decimals of a second tell the microseconds, whatever but a point follows. -/
theorem micros_append_inj {m n : Nat} (hm : m < 10 ^ 6) (hn : n < 10 ^ 6)
    (h : (if m = 0 then [] else '.' :: padded 6 m) ++ rest
      = (if n = 0 then [] else '.' :: padded 6 n) ++ other) : m = n := by
  by_cases hzero : m = 0 <;> by_cases hzero' : n = 0
  · rw [hzero, hzero']
  · rw [if_pos hzero, if_neg hzero', List.nil_append] at h
    exact absurd rfl (hrest '.' (by rw [h]; rfl))
  · rw [if_neg hzero, if_pos hzero', List.nil_append] at h
    exact absurd rfl (hother '.' (by rw [← h]; rfl))
  · rw [if_neg hzero, if_neg hzero'] at h
    have hlength : (padded 6 m).length = (padded 6 n).length := by
      rw [length_padded (by omega) hm, length_padded (by omega) hn]
    exact padded_injective (List.append_inj (List.cons.inj h).2 hlength).1

/-- The text of a time of day tells it, whatever but a point follows. -/
theorem TimeOfDay.chars_append_inj {t t' : TimeOfDay} (h : t.chars ++ rest = t'.chars ++ other) :
    t = t' := by
  obtain ⟨hour, minute, second, micro, hvalid⟩ := t
  obtain ⟨hour', minute', second', micro', hvalid'⟩ := t'
  have htwo {m n : Nat} (hm : m < 60) (hn : n < 60) :
      (padded 2 m).length = (padded 2 n).length := by
    rw [length_padded (by omega) (by omega), length_padded (by omega) (by omega)]
  simp only [TimeOfDay.chars, List.append_assoc, List.cons_append] at h
  obtain ⟨hhour, hafter⟩ := List.append_inj h (htwo (by omega) (by omega))
  obtain ⟨hminute, hafter⟩ := List.append_inj (List.cons.inj hafter).2 (htwo (by omega) (by omega))
  obtain ⟨hsecond, hafter⟩ := List.append_inj (List.cons.inj hafter).2 (htwo (by omega) (by omega))
  have hmicro := micros_append_inj hrest hother (by omega) (by omega) hafter
  obtain rfl := padded_injective hhour
  obtain rfl := padded_injective hminute
  obtain rfl := padded_injective hsecond
  subst hmicro
  rfl

end Append

theorem DateTime.iso_eq (separator : Char) (t : DateTime) :
    t.iso separator
      = t.date.chars ++ separator :: (t.time.chars ++ t.offset.elim [] Offset.chars) := by
  unfold iso
  rw [List.append_assoc]
  cases t.offset <;> rfl

/-- The text of a time tells its day and its time of day. -/
theorem DateTime.clock_of_text {t t' : DateTime} (h : t.text = t'.text) :
    t.date = t'.date ∧ t.time = t'.time := by
  have hoffset (o : Option Offset) : ∀ c ∈ (o.elim [] Offset.chars).head?, c ≠ '.' := by
    intro c hc
    cases o with
    | none => cases hc
    | some o => rcases o.head_chars c hc with rfl | rfl <;> decide
  have hchars : t.iso 'T' = t'.iso 'T' := String.ofList_injective h
  rw [iso_eq, iso_eq] at hchars
  obtain ⟨hdate, htime⟩ :=
    List.append_inj hchars (by rw [t.date.length_chars, t'.date.length_chars])
  exact ⟨Date.chars_injective hdate,
    TimeOfDay.chars_append_inj (hoffset t.offset) (hoffset t'.offset) (List.cons.inj htime).2⟩

end RecordQuery.Calendar
