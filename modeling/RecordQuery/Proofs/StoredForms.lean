import RecordQuery.Proofs.JsonPieces
import RecordQuery.Proofs.Places
import RecordQuery.Proofs.PlacesKept
import RecordQuery.Proofs.Twins

/-!
# What a cursor makes of a stored value

A value goes a long way before it is compared with itself: a column keeps it as a cell, the cell is
read, what is read is carried by a cursor, and what the cursor brings back is held against the cell.

* `ColumnType.Takes`: the values that a column takes.
* `ColumnType.Survives`: the values that compare equal at the end of the way.
* `ColumnType.Brings`: a cell is read as a value that comes through a cursor, and stands for a cell
  again, which compares equal under a certain condition.
* `ColumnType.brings_of_keep?`: the cell of every value that a column takes does so, the condition
  being that the value survives.
-/

namespace RecordQuery

open RecordQuery.Number RecordQuery.Calendar

/-- The value is a number; a floating one is a double. -/
def Value.IsNumber : Value → Prop
  | .int _ | .decimal _ => True
  | .float x => x.IsDouble
  | _ => False

/-- The double of a number. -/
def Value.double? : Value → Option Binary64
  | .int n => Binary64.ofInt? n
  | .float x => some x
  | .decimal d => d.toBinary64?
  | _ => none

namespace Store

namespace ColumnType

/-- The values that a column takes: those of its kind, and those that are converted to it. -/
def Takes : ColumnType → Value → Prop
  | .json, v => Json.Readable callRoom v
  | _, .null => True
  | .float, v | .numeric .., v => v.IsNumber
  | .integer, .int _ | .text, .text _ | .boolean, .bool _ | .uuid, .uuid _ => True
  | .date, .date _ | .date, .datetime _ | .datetime, .date _ | .datetime, .datetime _ => True
  | _, _ => False

/-- The values that compare equal to what a cursor brings back for them. A number with places has to
be the double of its own rounding. An identifier whose digits are a number is not even read again.
Of JSON, a finite number survives, and a collection whose text is the same in JSON and outside. -/
def Survives : ColumnType → Value → Prop
  | .numeric places true, v => ∀ x, v.double? = some x → x.keepsPlaces places = true
  | .uuid, .uuid u => Cell.number? (.ofList u.hex) = none
  | .json, .int _ => True
  | .json, .float x => x.isFinite = true
  | .json, .list items => (Value.list items).toText = Json.writeSpaced (.list items)
  | .json, .mapping entries => (Value.mapping entries).toText = Json.writeSpaced (.mapping entries)
  | .json, _ => False
  | _, _ => True

/-- The value that is read from the cell comes through a cursor, and what the cursor brings back
stands for a cell, which compares equal if and only if `same` holds. An absent cell stands for an
absent value, or for the NaN of JSON. -/
structure Brings (type : ColumnType) (cell : Cell) (same : Prop) : Prop where
  nan : cell.isNan = false
  portable : Cursor.Portable (type.read cell)
  operand : ∃ b, type.bind? (Cursor.carried (type.read cell)) = some b ∧
    (b.toward type.affinity = .null → type.read cell = .null ∨ cell = .text "NaN") ∧
    (cell.order (b.toward type.affinity) = .eq ↔ same)

theorem Brings.congr {type : ColumnType} {cell : Cell} {p q : Prop} (h : type.Brings cell p)
    (hpq : p ↔ q) : type.Brings cell q := by
  obtain ⟨b, hb, hnull, horder⟩ := h.operand
  exact ⟨h.nan, h.portable, b, hb, hnull, horder.trans hpq⟩

theorem order_self {c : Cell} (h : c.isNan = false) : c.order c = .eq := by
  rw [Cell.order_eq_compareRank h h]
  exact Cell.compareRank_self c

theorem brings_null (type : ColumnType) : type.Brings .null True := by
  refine ⟨rfl, trivial, .null, rfl, fun _ => .inl rfl, ?_⟩
  cases type <;> exact ⟨fun _ => trivial, fun _ => rfl⟩

/-- A cell whose value is bound as the same cell. -/
theorem Brings.exact {type : ColumnType} {cell b : Cell} {v : Value} (hread : type.read cell = v)
    (hsteady : Cursor.carried v = v) (hportable : Cursor.Portable v) (hbind : type.bind? v = some b)
    (htoward : b.toward type.affinity = cell) (hne : cell ≠ .null) (hnan : cell.isNan = false) :
    type.Brings cell True := by
  refine ⟨hnan, hread ▸ hportable, b, by rw [hread, hsteady, hbind], ?_, ?_⟩
  · intro hnull
    exact absurd (htoward ▸ hnull) hne
  · rw [htoward, order_self hnan]
    exact ⟨fun _ => trivial, fun _ => rfl⟩

/-! ## Texts that are numbers, and others -/

theorem readScientific_of_head {c : Char} {cs : List Char} (hdigit : isAsciiDigit c = false)
    (hmark : c ≠ '-' ∧ c ≠ '+' ∧ c ≠ '.') : readScientific (c :: cs) = none := by
  have hsign : splitSign (c :: cs) = (false, c :: cs) :=
    Json.splitSign_of_ne (by simpa using ⟨hmark.1, hmark.2.1⟩)
  have hspan : (c :: cs).span isAsciiDigit = ([], c :: cs) := by
    rw [List.span_eq_takeWhile_dropWhile, List.takeWhile_cons_of_neg (by simp [hdigit]),
      List.dropWhile_cons_of_neg (by simp [hdigit])]
  have hfraction : fractionPart (c :: cs) = ([], c :: cs) := by
    unfold fractionPart
    split
    · rename_i h
      exact absurd (List.cons.inj h).1 hmark.2.2
    · rfl
  have hread : readNat ([] ++ []) = none := rfl
  simp only [readScientific, hsign, hspan, hfraction, hread, bind, Option.bind]

/-- Digits with a dash behind them are no number. -/
theorem readScientific_dash {ds : List Char} (hds : ∀ d ∈ ds, isAsciiDigit d = true) (hne : ds ≠ [])
    (rest : List Char) : readScientific (ds ++ '-' :: rest) = none := by
  obtain ⟨d, ds, rfl⟩ := List.exists_cons_of_ne_nil hne
  have hd := hds d List.mem_cons_self
  have hsign : splitSign (d :: ds ++ '-' :: rest) = (false, d :: ds ++ '-' :: rest) := by
    refine Json.splitSign_of_ne ?_
    rintro c hc
    obtain rfl : d = c := Option.some.inj hc
    constructor
    all_goals
      rintro rfl
      exact absurd hd (by decide)
  have hmark : ∀ c ∈ ('-' :: rest).head?, isAsciiDigit c = false := by
    simp
    decide
  have hspan := span_append isAsciiDigit (d :: ds) hmark
  rw [span_all hds, List.nil_append] at hspan
  have hexponent : readExponent ('-' :: rest) = none := by
    rw [readExponent, if_neg (by decide)]
  have hfraction : fractionPart ('-' :: rest) = ([], '-' :: rest) := rfl
  simp only [readScientific, hsign, hspan, hfraction, hexponent, bind, Option.bind]
  cases readNat (d :: ds ++ []) <;> rfl

/-- A text between two characters that are no blanks is a number only if it is one without more. -/
theorem number?_of_ends {s : String} {c d : Char} {cs : List Char} (hs : s.toList = c :: cs ++ [d])
    (hc : Cell.isSpace c = false) (hd : Cell.isSpace d = false)
    (h : readScientific s.toList = none) : Cell.number? s = none := by
  rw [Cell.number?, hs, Text.stripChars_of_ends hc hd, ← hs, h]
  rfl

theorem isSpace_of_digit {c : Char} (h : isAsciiDigit c = true) : Cell.isSpace c = false := by
  obtain ⟨hlow, -⟩ := toNat_of_isAsciiDigit h
  have hblank : c ≠ ' ' := by
    rintro rfl
    exact absurd h (by decide)
  simp [Cell.isSpace, hblank, show ¬ c.toNat ≤ 0x0D by omega]

/-- A text that begins like a day and ends with a digit is no number. -/
theorem number?_of_day {s : String} {d : Date} {rest : List Char} {c : Char}
    (hs : s.toList = d.chars ++ rest) (hlast : s.toList.getLast? = some c)
    (hc : isAsciiDigit c = true) : Cell.number? s = none := by
  obtain ⟨first, year, hyear, hfirst⟩ := padded_cons 4 d.year
  have hdash : s.toList
      = padded 4 d.year ++ '-' :: (padded 2 d.month ++ '-' :: padded 2 d.day ++ rest) := by
    rw [hs]
    simp [Date.chars]
  obtain ⟨init, hinit⟩ := List.getLast?_eq_some_iff.1 hlast
  have hends : ∃ middle, s.toList = first :: middle ++ [c] := by
    cases init with
    | nil =>
      have hlength := congrArg List.length (hinit.symm.trans hdash)
      rw [hyear] at hlength
      simp only [List.nil_append, List.length_append, List.length_cons, List.length_nil] at hlength
      omega
    | cons first' middle =>
      have hhead : first' = first := by
        rw [hinit, hyear] at hdash
        exact (List.cons.inj hdash).1
      exact ⟨middle, by rw [hinit, hhead]⟩
  obtain ⟨middle, hmiddle⟩ := hends
  refine number?_of_ends hmiddle (isSpace_of_digit hfirst) (isSpace_of_digit hc) ?_
  rw [hdash]
  exact readScientific_dash (fun _ => isAsciiDigit_of_mem_padded) (padded_ne_nil _ _) _

theorem getLast?_append_padded (cs : List Char) (width n : Nat) :
    ∃ c, (cs ++ padded width n).getLast? = some c ∧ isAsciiDigit c = true := by
  cases hlast : (padded width n).getLast? with
  | none => exact absurd (List.getLast?_eq_none_iff.1 hlast) (padded_ne_nil width n)
  | some c =>
    refine ⟨c, ?_, isAsciiDigit_of_mem_padded (List.mem_of_getLast? hlast)⟩
    rw [List.getLast?_append, hlast]
    rfl

/-- The text of a day is no number. -/
theorem number?_date (d : Date) : Cell.number? d.text = none := by
  have htext : d.text.toList = d.chars := by rw [Date.text, String.toList_ofList]
  obtain ⟨c, hlast, hc⟩ :=
    getLast?_append_padded (padded 4 d.year ++ '-' :: padded 2 d.month ++ ['-']) 2 d.day
  refine number?_of_day (htext.trans (List.append_nil _).symm) ?_ hc
  rw [htext, ← hlast]
  simp [Date.chars]

/-- The text of a moment is no number. -/
theorem number?_momentText (t : DateTime) : Cell.number? (momentText t) = none := by
  have htext : (momentText t).toList = t.date.chars ++ ' ' :: t.time.fullChars := by
    rw [momentText, String.toList_ofList]
  obtain ⟨c, hlast, hc⟩ := getLast?_append_padded
    (t.date.chars ++ ' ' :: (padded 2 t.time.hour ++ ':' :: padded 2 t.time.minute ++
      ':' :: padded 2 t.time.second ++ ['.'])) 6 t.time.micro
  refine number?_of_day htext ?_ hc
  rw [htext, ← hlast]
  simp [TimeOfDay.fullChars]

/-! ## Numbers -/

/-- A number as a store holds it: an integer within the range, or a double. -/
inductive HeldNumber : Cell → Prop where
  | integer {n : Int} (h : inRange n = true) : HeldNumber (.integer n)
  | real {x : Binary64} (double : x.IsDouble) (nan : x.isNan = false) : HeldNumber (.real x)

theorem ofReal_cases (x : Binary64) :
    (∃ n, x.toInt? = some n ∧ inRange n = true ∧ Cell.ofReal x = .integer n) ∨
      Cell.ofReal x = .real x := by
  unfold Cell.ofReal
  cases h : x.toInt? with
  | none => exact .inr rfl
  | some n =>
    by_cases hrange : leastInteger < n ∧ n < greatestInteger
    · refine .inl ⟨n, rfl, ?_, if_pos hrange⟩
      simp only [inRange, Bool.and_eq_true, decide_eq_true_eq]
      omega
    · exact .inr (if_neg hrange)

theorem heldNumber_ofReal {x : Binary64} (hdouble : x.IsDouble) (hnan : x.isNan = false) :
    HeldNumber (Cell.ofReal x) := by
  rcases ofReal_cases x with ⟨n, -, hrange, hcell⟩ | hcell
  · exact hcell ▸ .integer hrange
  · exact hcell ▸ .real hdouble hnan

theorem heldNumber_of_number? {s : String} {cell : Cell} (h : Cell.number? s = some cell) :
    HeldNumber cell := by
  obtain ⟨n, -, rfl⟩ := Option.map_eq_some_iff.1 h
  simp only
  generalize (if n.negative = true then -(n.coefficient : Int) else n.coefficient) = whole
  split
  · rename_i hrange
    exact .integer hrange.2
  · exact heldNumber_ofReal (Binary64.isDouble_ofScientific n) (Binary64.isNan_ofScientific n)

/-- A column that reads numbers as they are gets them back. -/
theorem brings_number {type : ColumnType} (haffinity : type.affinity = .numeric)
    (hreads : type.readsNumbers = true)
    (hplain : ∀ x whole, type.readNumber x whole = (whole.map Value.int).getD (.float x))
    {cell : Cell} (h : HeldNumber cell) : type.Brings cell True := by
  cases h with
  | @integer n hrange =>
    have hbind : type.bind? (.int n) = some (.integer n) := by
      simp [bind?, integerCell?, hrange]
    have hread : type.read (.integer n) = .int n := by
      simp [ColumnType.read, read?, readNumber?, hreads, hplain]
    exact .exact hread rfl (length_natDigits_of_bind? hbind) hbind (by rw [haffinity]; rfl)
      (by simp) rfl
  | @real x hdouble hnan =>
    have hbind : type.bind? (.float x) = some (.real x) := by
      simp [bind?, ofFloat, hnan]
    have hread : type.read (.real x) = .float x := by
      simp [ColumnType.read, read?, readNumber?, hreads, hplain]
    exact .exact hread rfl (Json.read?_floatChars hdouble) hbind (by rw [haffinity]; rfl)
      (by simp) hnan

/-- A column of floating numbers gets them back. -/
theorem brings_float {x : Binary64} (hdouble : x.IsDouble) : float.Brings (ofFloat x) True := by
  unfold ofFloat
  cases hnan : x.isNan with
  | true => exact brings_null _
  | false =>
    have hbind : float.bind? (.float x) = some (.real x) := by
      simp [bind?, ofFloat, hnan]
    exact .exact rfl rfl (Json.read?_floatChars hdouble) hbind rfl (by simp) hnan

section Places

variable {places : Nat} (hplaces : places < 2 ^ 31)

include hplaces

/-- An integer in a column of decimals with places. -/
theorem brings_places_integer {x : Binary64} (hdouble : x.IsDouble) {n : Int}
    (h : x.toInt? = some n) : (numeric places true).Brings (.integer n) True := by
  obtain ⟨m, e, hnormal, hread, hvalue⟩ := Binary64.ofInt?_of_toInt? hdouble h
  have hcount : halfEven (Binary64.magnitude m e * 10 ^ places) = n.natAbs * 10 ^ places := by
    rw [hvalue]
    exact_mod_cast halfEven_natCast (n.natAbs * 10 ^ places)
  have hback := Binary64.ofScientific_places hplaces (n < 0) hnormal hvalue
  have hvalue' : (numeric places true).read (.integer n)
      = .decimal (.finite (n < 0) (n.natAbs * 10 ^ places) (-(places : Int))) := by
    simp only [ColumnType.read, read?, readNumber?, readsNumbers, if_true, readNumber, hread,
      Option.getD_some, ColumnType.places, Binary64.toPlaces?_finite, hcount]
  refine ⟨rfl, ?_, .real (.finite (n < 0) m e), ?_, ?_, ?_⟩
  · rw [hvalue']
    exact inBounds_of_finite hplaces (by rw [hback]; rfl)
  · rw [hvalue']
    simp only [Cursor.carried, bind?, Decimal.toBinary64?, hback, Option.map_some]
    rfl
  · intro hnull
    cases hnull
  · refine ⟨fun _ => trivial, fun _ => ?_⟩
    show (((Binary64.finite (n < 0) m e).compareInt? n).map Ordering.swap).getD .eq = .eq
    rw [Binary64.compareInt?_of_magnitude hvalue]
    rfl

/-- A double in a column of decimals with places. -/
theorem brings_places_real {x : Binary64} (hdouble : x.IsDouble) (hnan : x.isNan = false) :
    (numeric places true).Brings (.real x) (x.keepsPlaces places = true) := by
  cases x with
  | nan => cases hnan
  | infinity b =>
    have hread : (numeric places true).read (.real (.infinity b)) = .decimal (.infinity b) := rfl
    have hexact : (numeric places true).Brings (.real (.infinity b)) True :=
      .exact hread rfl trivial rfl rfl (by simp) rfl
    exact hexact.congr ⟨fun _ => rfl, fun _ => trivial⟩
  | finite negative m e =>
    have hcount := Binary64.toPlaces?_finite places negative m e
    have hfinite := Binary64.isFinite_places hplaces hdouble hcount
    generalize halfEven (Binary64.magnitude m e * 10 ^ places) = count at hcount hfinite
    have hback := Binary64.isNan_ofScientific ⟨negative, count, -(places : Int)⟩
    have hread : (numeric places true).read (.real (.finite negative m e))
        = .decimal (.finite negative count (-(places : Int))) := by
      simp only [ColumnType.read, read?, readNumber?, readsNumbers, if_true, readNumber,
        Option.getD_some, ColumnType.places, hcount]
    have hportable :
        Cursor.Portable ((numeric places true).read (.real (.finite negative m e))) := by
      rw [hread]
      exact inBounds_of_finite hplaces hfinite
    refine ⟨rfl, hportable, .real (.ofScientific ⟨negative, count, -(places : Int)⟩), ?_, ?_, ?_⟩
    · rw [hread]
      simp only [Cursor.carried, bind?, Decimal.toBinary64?, Option.map_some, ofFloat, hback,
        Bool.false_eq_true, if_false]
    · intro hnull
      cases hnull
    · have hkeeps : (Binary64.finite negative m e).keepsPlaces places
          = (Binary64.finite negative m e).eqv
            (.ofScientific ⟨negative, count, -(places : Int)⟩) := by
        rw [Binary64.keepsPlaces, hcount]
      rw [hkeeps]
      generalize Binary64.ofScientific ⟨negative, count, -(places : Int)⟩ = y at hfinite
      cases y with
      | finite negative' m' e' =>
        show ((Binary64.finite negative m e).compare? (.finite negative' m' e')).getD .eq = .eq ↔
          ((Binary64.finite negative m e).compare? (.finite negative' m' e') == some .eq) = true
        simp [Binary64.compare?]
      | _ => cases hfinite

/-- A column of decimals with places gets back the doubles that keep their places. -/
theorem brings_places {x : Binary64} (hdouble : x.IsDouble) (hnan : x.isNan = false) :
    (numeric places true).Brings (Cell.ofReal x) (x.keepsPlaces places = true) := by
  rcases ofReal_cases x with ⟨n, hn, -, hcell⟩ | hcell
  · rw [hcell]
    exact (brings_places_integer hplaces hdouble hn).congr
      ⟨fun _ => Binary64.keepsPlaces_of_toInt? hplaces hdouble hn, fun _ => trivial⟩
  · rw [hcell]
    exact brings_places_real hplaces hdouble hnan

end Places

/-! ## Days, times and texts -/

/-- A column whose texts are read by its own rule keeps a text that is no number. -/
theorem brings_text {type : ColumnType} {s : String} {v : Value} (hread : type.read (.text s) = v)
    (hsteady : Cursor.carried v = v) (hportable : Cursor.Portable v)
    (hbind : type.bind? v = some (.text s))
    (htext : type.affinity = .textual ∨ Cell.number? s = none) : type.Brings (.text s) True := by
  refine .exact hread hsteady hportable hbind ?_ (by simp) rfl
  rcases htext with htext | htext
  · rw [htext]
    rfl
  · cases type.affinity with
    | textual => rfl
    | numeric => simp [Cell.toward, htext]

theorem brings_date (d : Date) : date.Brings (.text d.text) True := by
  have hday : Iso.readDate? d.text.toList = some d := by
    rw [Date.text, String.toList_ofList]
    exact Iso.readDate?_chars d
  have hread : date.read (.text d.text) = .date d := by
    simp only [ColumnType.read, read?, readText?, hday]
    rfl
  exact brings_text hread rfl trivial rfl (.inr (number?_date d))

/-- A moment comes back without its offset. -/
theorem brings_datetime (t : DateTime) : datetime.Brings (.text (momentText t)) True := by
  have hmoment := Iso.readDateTime?_momentText t
  have hread : datetime.read (.text (momentText t))
      = .datetime { date := t.date, time := t.time } := by
    simp only [ColumnType.read, read?, readText?, hmoment]
    rfl
  exact brings_text hread rfl (Iso.readDateTime?_text _) rfl (.inr (number?_momentText t))

/-- An identifier whose digits are a number is kept as the number, and not read again. -/
theorem brings_uuid (u : Uuid) : uuid.Brings (Cell.toward .numeric (.text (.ofList u.hex)))
    (uuid.Survives (.uuid u)) := by
  cases hnumber : Cell.number? (.ofList u.hex) with
  | none =>
    have hcell : Cell.toward .numeric (.text (.ofList u.hex)) = .text (.ofList u.hex) := by
      simp [Cell.toward, hnumber]
    have hread : uuid.read (.text (.ofList u.hex)) = .uuid u := by
      simp only [ColumnType.read, read?, readText?, String.toList_ofList, Uuid.read?_hex]
      rfl
    rw [hcell]
    exact (brings_text hread rfl trivial rfl (.inr hnumber)).congr
      ⟨fun _ => hnumber, fun _ => trivial⟩
  | some cell =>
    have hcell : Cell.toward .numeric (.text (.ofList u.hex)) = cell := by
      simp [Cell.toward, hnumber]
    have hlost : ¬ uuid.Survives (.uuid u) := by
      intro hnone
      cases (show Cell.number? (.ofList u.hex) = none from hnone).symm.trans hnumber
    rw [hcell]
    cases heldNumber_of_number? hnumber with
    | integer _ =>
      refine ⟨rfl, trivial, .null, rfl, fun _ => .inl rfl, ?_, fun h => absurd h hlost⟩
      intro h
      cases h
    | real _ hnan =>
      refine ⟨hnan, trivial, .null, rfl, fun _ => .inl rfl, ?_, fun h => absurd h hlost⟩
      intro h
      cases h

theorem brings_boolean (b : Bool) : boolean.Brings (.integer (if b then 1 else 0)) True := by
  cases b <;> exact .exact rfl rfl trivial rfl rfl (by simp) rfl

/-! ## JSON -/

theorem portable_of_readable {room : Nat} {v : Value} (h : Json.Readable room v) :
    Cursor.Portable v := by
  cases v with
  | int n => exact h
  | float x => exact h
  | decimal | datetime => exact h.elim
  | _ => trivial

/-- JSON whose text is no number is kept as that text. -/
theorem brings_json_text {v : Value} (hv : Json.Readable callRoom v)
    (htext : Cell.number? (Json.writeSpaced v) = none) {b : Cell}
    (hbind : json.bind? (Cursor.carried v) = some b)
    (hnull : b.toward .numeric = .null → v = .null ∨ Json.writeSpaced v = "NaN") {same : Prop}
    (hsame : (Cell.text (Json.writeSpaced v)).order (b.toward .numeric) = .eq ↔ same) :
    json.Brings ((Cell.text (Json.writeSpaced v)).toward .numeric) same := by
  have hcell : (Cell.text (Json.writeSpaced v)).toward .numeric
      = .text (Json.writeSpaced v) := by
    simp [Cell.toward, htext]
  have hread : json.read (.text (Json.writeSpaced v)) = v := by
    simp only [ColumnType.read, read?, readText?, Json.read?_writeSpaced hv, Option.getD_some]
  rw [hcell]
  refine ⟨rfl, hread.symm ▸ portable_of_readable hv, b, by rw [hread, hbind], ?_, hsame⟩
  intro h
  rw [hread]
  exact (hnull h).imp_right fun htext => by rw [htext]

/-- JSON whose text is a number is kept as that number, which comes back. -/
theorem brings_json_number {v : Value} {cell : Cell}
    (h : Cell.number? (Json.writeSpaced v) = some cell) :
    json.Brings ((Cell.text (Json.writeSpaced v)).toward .numeric) True := by
  have hcell : (Cell.text (Json.writeSpaced v)).toward .numeric = cell := by
    simp [Cell.toward, h]
  rw [hcell]
  exact brings_number rfl rfl (fun _ whole => by cases whole <;> rfl) (heldNumber_of_number? h)

/-- A text with a mark of JSON at its beginning is no number. -/
theorem number?_of_mark {s : String} {c d : Char} {cs : List Char}
    (hs : s.toList = c :: cs ++ [d]) (hc : c = '"' ∨ c = '[' ∨ c = '\x7b')
    (hd : d = '"' ∨ d = ']' ∨ d = '\x7d') : Cell.number? s = none := by
  have hmark : isAsciiDigit c = false ∧ Cell.isSpace c = false ∧ c ≠ '-' ∧ c ≠ '+' ∧ c ≠ '.' := by
    rcases hc with rfl | rfl | rfl
    all_goals decide
  have hend : Cell.isSpace d = false := by
    rcases hd with rfl | rfl | rfl
    all_goals decide
  refine number?_of_ends hs hmark.2.1 hend ?_
  rw [hs]
  exact readScientific_of_head hmark.1 hmark.2.2

theorem isSpace_of_numberChar {c : Char} (h : Json.isNumberChar c = true) :
    Cell.isSpace c = false := by
  simp only [Json.isNumberChar, Bool.or_eq_true] at h
  rcases h with hdigit | hmark
  · exact isSpace_of_digit hdigit
  · have hcases : c = '-' ∨ c = '+' ∨ c = '.' ∨ c = 'e' := by simpa using hmark
    rcases hcases with rfl | rfl | rfl | rfl
    all_goals decide

/-- A text of digits and marks is a number if it is read as one. -/
theorem number?_of_scientific {s : String} (hs : ∀ c ∈ s.toList, Json.isNumberChar c = true)
    {n : Scientific} (h : readScientific s.toList = some n) :
    ∃ cell, Cell.number? s = some cell := by
  rw [Cell.number?, Text.stripChars_of_forall fun c hc => isSpace_of_numberChar (hs c hc), h]
  exact ⟨_, rfl⟩

theorem number?_writeSpaced_int (n : Int) :
    ∃ cell, Cell.number? (Json.writeSpaced (.int n)) = some cell := by
  have htext : (Json.writeSpaced (.int n)).toList = intChars n := by
    rw [Json.writeSpaced, String.toList_ofList]
    rfl
  obtain ⟨negative, m, hsigned⟩ : ∃ negative m,
      intChars n = Binary64.signed negative (natDigits m ++ []) := by
    cases n with
    | ofNat m => exact ⟨false, m, (List.append_nil _).symm⟩
    | negSucc m => exact ⟨true, m + 1, by rw [List.append_nil]; rfl⟩
  have hread := readScientific_whole (fun c hc => isAsciiDigit_of_mem_natDigits hc)
    (natDigits_ne_nil m) noTail_nil rfl negative (digitsFrom_natDigits 0 m)
  refine number?_of_scientific (fun c hc => ?_) (by rw [htext, hsigned, hread])
  rw [htext] at hc
  exact Json.isNumberChar_of_mem_intChars hc

theorem number?_writeSpaced_float (negative : Bool) (m : Nat) (e : Int) :
    ∃ cell, Cell.number? (Json.writeSpaced (.float (.finite negative m e))) = some cell := by
  have htext : (Json.writeSpaced (.float (.finite negative m e))).toList
      = Binary64.chars (.finite negative m e) := by
    rw [Json.writeSpaced, String.toList_ofList]
    rfl
  have hnumeral : ∃ q, Binary64.IsNumeral negative q (Binary64.chars (.finite negative m e)) := by
    rcases Nat.eq_zero_or_pos m with rfl | hm
    · exact ⟨_, Binary64.isNumeral_zero negative e⟩
    · exact ⟨_, Binary64.isNumeral_chars negative hm e⟩
  obtain ⟨q, s, hs, -⟩ := hnumeral
  refine number?_of_scientific (fun c hc => ?_) (htext ▸ hs)
  rw [htext] at hc
  exact (Json.finite_chars negative m e).1 c hc

/-- The text of a string is longer than the string. -/
theorem writeSpaced_text_ne (s : String) : Json.writeSpaced (.text s) ≠ s := by
  intro h
  have hlength := congrArg (fun text => text.toList.length) h
  have hbody := Json.length_le_flatMap_stringChar s.toList
  simp only [Json.writeSpaced, String.toList_ofList, Json.charsWith, Json.stringChars, Value.chars,
    List.length_append, List.length_cons, List.length_nil] at hlength
  omega

theorem order_text_iff {s s' : String} : (Cell.text s).order (.text s') = .eq ↔ s' = s := by
  constructor
  · intro h
    exact Cell.text.inj (Cell.eq_of_order_text h)
  · rintro rfl
    exact order_self rfl

/-- JSON in brackets comes back as its text. -/
theorem brings_json_collection {v : Value} (hv : Json.Readable callRoom v) {c d c' d' : Char}
    {cs cs' : List Char} (hsource : v.chars = c :: cs ++ [d])
    (htext : Json.charsWith [' '] v = c' :: cs' ++ [d'])
    (hmarks : (c = '[' ∨ c = '\x7b') ∧ (d = ']' ∨ d = '\x7d'))
    (hmarks' : (c' = '[' ∨ c' = '\x7b') ∧ (d' = ']' ∨ d' = '\x7d'))
    (hcarried : Cursor.carried v = .text v.toText) :
    json.Brings ((Cell.text (Json.writeSpaced v)).toward .numeric)
      (v.toText = Json.writeSpaced v) := by
  have hown : Cell.number? v.toText = none :=
    number?_of_mark (by rw [Value.toText, String.toList_ofList, hsource]) (.inr hmarks.1)
      (.inr hmarks.2)
  have hother : Cell.number? (Json.writeSpaced v) = none :=
    number?_of_mark (by rw [Json.writeSpaced, String.toList_ofList, htext]) (.inr hmarks'.1)
      (.inr hmarks'.2)
  have hcell : (Cell.text v.toText).toward .numeric = .text v.toText := by
    simp [Cell.toward, hown]
  refine brings_json_text hv hother (by rw [hcarried]; rfl) ?_ ?_
  · rw [hcell]
    intro h
    cases h
  · rw [hcell]
    exact order_text_iff

/-- JSON comes back as the cell it is kept in if it is a finite number, or a collection whose text
is its JSON. -/
theorem brings_json {v : Value} (hv : Json.Readable callRoom v) :
    json.Brings ((Cell.text (Json.writeSpaced v)).toward .numeric) (json.Survives v) := by
  cases v with
  | null =>
    refine brings_json_text hv (by decide) rfl (fun _ => .inl rfl) ⟨?_, False.elim⟩
    intro h
    cases h
  | bool b =>
    have hnone : Cell.number? (Json.writeSpaced (.bool b)) = none := by cases b <;> decide
    refine brings_json_text hv hnone rfl (fun h => by cases h) ⟨?_, False.elim⟩
    intro h
    cases h
  | int n =>
    obtain ⟨cell, hcell⟩ := number?_writeSpaced_int n
    exact brings_json_number hcell
  | float x =>
    cases x with
    | nan =>
      refine brings_json_text hv (by decide) rfl (fun _ => .inr (by decide))
        ⟨fun h => ?_, fun h => by cases h⟩
      cases h
    | infinity negative =>
      have hnone : Cell.number? (Json.writeSpaced (.float (.infinity negative))) = none := by
        cases negative <;> decide
      refine brings_json_text hv hnone rfl (fun h => by cases h) ⟨?_, fun h => by cases h⟩
      intro h
      cases h
    | finite negative m e =>
      obtain ⟨cell, hcell⟩ := number?_writeSpaced_float negative m e
      exact (brings_json_number hcell).congr ⟨fun _ => rfl, fun _ => trivial⟩
  | text s =>
    have hnone : Cell.number? (Json.writeSpaced (.text s)) = none :=
      number?_of_mark (by rw [Json.writeSpaced, String.toList_ofList]; rfl) (.inl rfl) (.inl rfl)
    refine brings_json_text hv hnone rfl
      (fun h => absurd h (Cell.toward_text_ne_null s .numeric)) ⟨?_, False.elim⟩
    intro h
    exact writeSpaced_text_ne s (Cell.eq_of_toward_text (Cell.eq_of_order_text h)).symm
  | list items =>
    exact brings_json_collection hv rfl rfl ⟨.inl rfl, .inl rfl⟩ ⟨.inl rfl, .inl rfl⟩ rfl
  | mapping entries =>
    exact brings_json_collection hv rfl rfl ⟨.inr rfl, .inr rfl⟩ ⟨.inr rfl, .inr rfl⟩ rfl
  | decimal | date | datetime | uuid | tuple => exact hv.elim

/-! ## All columns -/

theorem isDouble_double? {v : Value} (hv : v.IsNumber) {x : Binary64} (h : v.double? = some x) :
    x.IsDouble := by
  cases v with
  | int n => exact Binary64.isDouble_ofInt? h
  | float y =>
    cases h
    exact hv
  | decimal d => exact Number.Decimal.isDouble_toBinary64? h
  | _ => exact hv.elim

theorem keep?_float {v : Value} (hv : v.IsNumber) : float.keep? v = v.double?.map ofFloat := by
  cases v <;> first | rfl | cases hv

theorem keep?_numeric (places : Nat) (asDecimal : Bool) {v : Value} (hv : v.IsNumber) :
    (numeric places asDecimal).keep? v
      = v.double?.map fun x => if x.isNan then .null else Cell.ofReal x := by
  cases v <;> first | rfl | cases hv

theorem brings_numeric {places : Nat} {asDecimal : Bool}
    (hformat : (numeric places asDecimal).hasFormat = true) {v : Value} (hv : v.IsNumber)
    {x : Binary64} (hx : v.double? = some x) :
    (numeric places asDecimal).Brings (if x.isNan then .null else Cell.ofReal x)
      ((numeric places asDecimal).Survives v) := by
  have hdouble := isDouble_double? hv hx
  cases asDecimal with
  | false =>
    have hsurvives : (numeric places false).Survives v := by cases v <;> trivial
    cases hnan : x.isNan with
    | true => exact (brings_null _).congr ⟨fun _ => hsurvives, fun _ => trivial⟩
    | false =>
      have hbrings : (numeric places false).Brings (Cell.ofReal x) True :=
        brings_number rfl rfl (fun _ whole => by cases whole <;> rfl)
          (heldNumber_ofReal hdouble hnan)
      exact hbrings.congr ⟨fun _ => hsurvives, fun _ => trivial⟩
  | true =>
    have hsurvives : (numeric places true).Survives v ↔ x.keepsPlaces places = true := by
      have hdef : (numeric places true).Survives v
          ↔ ∀ y, v.double? = some y → y.keepsPlaces places = true := by cases v <;> rfl
      rw [hdef, hx]
      simp
    cases hnan : x.isNan with
    | true =>
      obtain rfl : x = .nan := by cases x <;> first | rfl | cases hnan
      exact (brings_null _).congr ⟨fun _ => hsurvives.2 rfl, fun _ => trivial⟩
    | false =>
      have hplaces : places < 2 ^ 31 := by simpa [hasFormat] using hformat
      exact (brings_places hplaces hdouble hnan).congr hsurvives.symm

/-- An absent value is kept as absent, except as JSON. -/
theorem brings_of_null {type : ColumnType} (hjson : type ≠ .json) {cell : Cell}
    (h : type.keep? .null = some cell) : type.Brings cell (type.Survives .null) := by
  have hcell : type.keep? .null = some .null := by
    cases type <;> first | rfl | exact absurd rfl hjson
  have hsurvives : type.Survives .null := by
    cases type with
    | numeric places asDecimal => cases asDecimal <;> simp [Survives, Value.double?]
    | json => exact absurd rfl hjson
    | _ => trivial
  rw [hcell] at h
  cases h
  exact (brings_null type).congr ⟨fun _ => hsurvives, fun _ => trivial⟩

/-- The cell of every value that a column takes brings it through a cursor: it compares equal if and
only if the value survives. -/
theorem brings_of_keep? {type : ColumnType} (hformat : type.hasFormat = true) {v : Value}
    (htakes : type.Takes v) {cell : Cell} (h : type.keep? v = some cell) :
    type.Brings cell (type.Survives v) := by
  by_cases hjson : type = .json
  · subst hjson
    cases h
    exact brings_json htakes
  by_cases hnull : v = .null
  · subst hnull
    exact brings_of_null hjson h
  cases type with
  | json => exact absurd rfl hjson
  | float =>
    have hv : v.IsNumber := by cases v <;> first | exact htakes | exact absurd rfl hnull
    rw [keep?_float hv] at h
    obtain ⟨x, hx, rfl⟩ := Option.map_eq_some_iff.1 h
    have hsurvives : float.Survives v := by cases v <;> trivial
    exact (brings_float (isDouble_double? hv hx)).congr ⟨fun _ => hsurvives, fun _ => trivial⟩
  | numeric places asDecimal =>
    have hv : v.IsNumber := by cases v <;> first | exact htakes | exact absurd rfl hnull
    rw [keep?_numeric places asDecimal hv] at h
    obtain ⟨x, hx, rfl⟩ := Option.map_eq_some_iff.1 h
    exact brings_numeric hformat hv hx
  | integer =>
    cases v with
    | null => exact absurd rfl hnull
    | int n =>
      have hinteger : integerCell? n = some cell := h
      simp only [integerCell?, Option.ite_none_right_eq_some, Option.some.injEq] at hinteger
      obtain ⟨hrange, rfl⟩ := hinteger
      exact brings_number rfl rfl (fun _ whole => by cases whole <;> rfl) (.integer hrange)
    | _ => exact htakes.elim
  | text =>
    cases v with
    | null => exact absurd rfl hnull
    | text s =>
      cases h
      exact brings_text rfl rfl trivial rfl (.inl rfl)
    | _ => exact htakes.elim
  | date =>
    cases v with
    | null => exact absurd rfl hnull
    | date d =>
      cases h
      exact brings_date d
    | datetime t =>
      cases h
      exact brings_date t.date
    | _ => exact htakes.elim
  | datetime =>
    cases v with
    | null => exact absurd rfl hnull
    | date d =>
      cases h
      exact brings_datetime _
    | datetime t =>
      cases h
      exact brings_datetime t
    | _ => exact htakes.elim
  | boolean =>
    cases v with
    | null => exact absurd rfl hnull
    | bool b =>
      cases h
      exact brings_boolean b
    | _ => exact htakes.elim
  | uuid =>
    cases v with
    | null => exact absurd rfl hnull
    | uuid u =>
      obtain rfl := Option.some.inj h
      exact brings_uuid u
    | _ => exact htakes.elim

/-- A decimal with no more places than its column survives there, if it is below `2 ^ 52` without
its point. -/
theorem survives_decimal {places : Nat} (hplaces : places ≤ 300) (negative : Bool) {c : Nat}
    {e : Int} (he : -(places : Int) ≤ e) (h : c * 10 ^ (e + places).toNat < 2 ^ 52) :
    (numeric places true).Survives (.decimal (.finite negative c e)) := by
  intro x hx
  obtain rfl : Binary64.ofScientific ⟨negative, c, e⟩ = x := Option.some.inj hx
  have hlog : Nat.log2 c < 3000 := by
    rcases Nat.eq_zero_or_pos c with rfl | hpos
    · decide
    · have hlt : c < 2 ^ 52 :=
        (Nat.le_mul_of_pos_right c (Nat.pow_pos (by decide))).trans_lt h
      exact ((Nat.log2_lt hpos.ne').2 hlt).trans (by decide)
  refine Binary64.keepsPlaces_ofScientific hplaces h hlog ?_
  have hexponent : e = ((e + places).toNat : Int) - places := by omega
  generalize (e + places).toNat = k at hexponent
  rw [Binary64.numeralValue, hexponent, zpow_sub₀ (by norm_num), zpow_natCast, zpow_natCast]
  push_cast
  ring

end ColumnType
end Store
end RecordQuery
