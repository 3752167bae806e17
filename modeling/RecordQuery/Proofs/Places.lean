import RecordQuery.Proofs.JsonForms
import RecordQuery.Proofs.Keyset
import RecordQuery.Proofs.Positions
import RecordQuery.Proofs.Records

/-!
# The place of a row in a cursor

A cursor is made of the values that are read from a row, and comes back as a position that is held
against the cells of other rows.

* `Table.ReadsBack`: what is read from a cell compares equal to it.
* `Table.place?`: the cells for which the values of a cursor stand when it comes back. Booleans do
  not compare, so a cursor with one of them has no place.
* `Table.placed_of_place?`: the place of a row is a position in the sense of the keyset condition.
* `Table.level_of_place?`: a place without collections is level with its row.
-/

namespace RecordQuery

open RecordQuery.Number RecordQuery.Calendar

namespace Number.Binary64

theorem isNan_ofRatio (negative : Bool) (num den : Nat) :
    (ofRatio negative num den).isNan = false := by
  unfold ofRatio
  by_cases hnum : num = 0
  · rw [if_pos hnum]
    rfl
  · rw [if_neg hnum]
    simp only
    generalize (if scaledQuotient num den _ = 2 ^ 53 then _ else _ : Nat × Int) = p
    by_cases hlarge : p.2 > greatestExponent
    · rw [if_pos hlarge]
      rfl
    · rw [if_neg hlarge]
      rfl

theorem isNan_ofScientific (s : Scientific) : (ofScientific s).isNan = false := by
  unfold ofScientific
  by_cases hzero : s.coefficient = 0
  · rw [if_pos hzero]
    rfl
  · rw [if_neg hzero]
    simp only
    split
    · rfl
    split
    · rfl
    split
    · exact isNan_ofRatio _ _ _
    · exact isNan_ofRatio _ _ _

end Number.Binary64

namespace Store

/-! ## Operands -/

/-- The cell is an integer, or a double other than a NaN. -/
def Cell.IsNumber : Cell → Prop
  | .integer _ => True
  | .real x => x.isNan = false
  | _ => False

theorem Cell.IsNumber.isNan {c : Cell} (h : c.IsNumber) : c.isNan = false := by
  cases c with
  | real x => exact h
  | _ => rfl

theorem Cell.isNumber_ofReal {x : Binary64} (h : x.isNan = false) : (Cell.ofReal x).IsNumber := by
  unfold Cell.ofReal
  split
  · split
    · trivial
    · exact h
  · exact h

theorem Cell.isNumber_of_number? {s : String} {c : Cell} (h : Cell.number? s = some c) :
    c.IsNumber := by
  obtain ⟨n, -, rfl⟩ := Option.map_eq_some_iff.1 h
  simp only
  generalize (if n.negative = true then -(n.coefficient : Int) else n.coefficient) = whole
  split
  · trivial
  · exact isNumber_ofReal (Binary64.isNan_ofScientific n)

theorem Cell.isNan_toward {c : Cell} (h : c.isNan = false) (a : Affinity) :
    (c.toward a).isNan = false := by
  cases a with
  | numeric =>
    cases c with
    | text s =>
      simp only [Cell.toward]
      cases hs : Cell.number? s with
      | none => rfl
      | some d => exact (Cell.isNumber_of_number? hs).isNan
    | _ => exact h
  | textual => cases c <;> rfl

/-- A text stays a cell that is not absent, whatever the column. -/
theorem Cell.toward_text_ne_null (s : String) (a : Affinity) :
    (Cell.text s).toward a ≠ .null := by
  cases a with
  | numeric =>
    simp only [Cell.toward]
    cases hs : Cell.number? s with
    | none => simp
    | some d =>
      intro hd
      exact (hd ▸ Cell.isNumber_of_number? hs : Cell.IsNumber .null)
  | textual => simp [Cell.toward]

theorem ColumnType.isNan_ofFloat (x : Binary64) : (ColumnType.ofFloat x).isNan = false := by
  unfold ColumnType.ofFloat
  split
  · rfl
  · rename_i h
    simpa [Cell.isNan] using h

theorem ColumnType.isNan_of_bind? {type : ColumnType} {v : Value} {c : Cell}
    (h : type.bind? v = some c) : c.isNan = false := by
  cases v with
  | float x =>
    simp only [bind?, Option.some.injEq] at h
    exact h ▸ isNan_ofFloat x
  | decimal d =>
    obtain ⟨x, -, rfl⟩ := Option.map_eq_some_iff.1 h
    exact isNan_ofFloat x
  | int n =>
    simp only [bind?, integerCell?, Option.ite_none_right_eq_some, Option.some.injEq] at h
    exact h.2 ▸ rfl
  | text s =>
    simp only [bind?, Option.ite_none_left_eq_some, Option.some.injEq] at h
    exact h.2 ▸ rfl
  | list | tuple | mapping =>
    simp only [bind?, Option.ite_none_right_eq_some, Option.some.injEq] at h
    exact h.2 ▸ rfl
  | _ =>
    simp only [bind?, Option.some.injEq] at h
    exact h ▸ rfl

namespace Table

variable {t : Table}

theorem operand?_eq_some {column : String} {v : Value} {c : Cell} :
    t.operand? column v = some c ↔
      ∃ type, t.type? column = some type ∧ ∃ b, type.bind? v = some b ∧
        c = b.toward type.affinity := by
  unfold operand?
  constructor
  · intro h
    obtain ⟨type, htype, h⟩ := Option.bind_eq_some_iff.1 h
    obtain ⟨b, hb, h⟩ := Option.bind_eq_some_iff.1 h
    cases h
    exact ⟨type, htype, b, hb, rfl⟩
  · rintro ⟨type, htype, b, hb, rfl⟩
    simp [htype, hb]

theorem isNan_of_operand? {column : String} {v : Value} {c : Cell}
    (h : t.operand? column v = some c) : c.isNan = false := by
  obtain ⟨type, -, b, hb, rfl⟩ := operand?_eq_some.1 h
  exact Cell.isNan_toward (ColumnType.isNan_of_bind? hb) _

end Table

/-! ## Reading back -/

/-- Decimals are written with as many places as a format can have. -/
def ColumnType.hasFormat : ColumnType → Bool
  | .numeric places true => places < 2 ^ 31
  | _ => true

namespace Table

variable {t : Table}

/-- The value that is read from a column of the row. -/
def value (t : Table) (column : String) (row : Row) : Value :=
  ((t.type? column).map fun type => type.read (row.cell column)).getD .null

/-- What is read from a column of the row compares equal, as an operand, to what is kept there. -/
def readsBack (t : Table) (column : String) (row : Row) : Bool :=
  (t.type? column).any fun type => type.hasFormat &&
    (t.operand? column (t.value column row)).any fun c => (row.cell column).order c == .eq

theorem readsBack_iff {column : String} {row : Row} :
    t.readsBack column row = true ↔
      ∃ type c, t.type? column = some type ∧ type.hasFormat = true ∧
        t.value column row = type.read (row.cell column) ∧
        t.operand? column (t.value column row) = some c ∧ (row.cell column).order c = .eq := by
  simp only [readsBack, Option.any_eq_true, Bool.and_eq_true, beq_iff_eq]
  constructor
  · rintro ⟨type, htype, hformat, c, hc, horder⟩
    exact ⟨type, c, htype, hformat, by simp [value, htype], hc, horder⟩
  · rintro ⟨type, c, htype, hformat, -, hc, horder⟩
    exact ⟨type, htype, hformat, c, hc, horder⟩

end Table

/-! ## Values that come through -/

/-- A decimal with places whose double is finite has an exponent within bounds. -/
theorem inBounds_of_finite {negative : Bool} {count places : Nat} (hplaces : places < 2 ^ 31)
    (h : (Binary64.ofScientific ⟨negative, count, -(places : Int)⟩).isFinite = true) :
    (Decimal.finite negative count (-(places : Int))).InBounds := by
  have hleast : ¬ -(places : Int) < Decimal.leastExponent := by
    unfold Decimal.leastExponent
    omega
  show Decimal.checked negative count (-(places : Int)) = some _
  unfold Decimal.checked
  rw [if_neg hleast]
  by_cases hzero : count = 0
  · rw [if_pos hzero, if_pos (by unfold Decimal.greatestExponent; omega)]
  rw [if_neg hzero]
  -- A number beyond all doubles would have become an infinity.
  have hmagnitude : -(places : Int) + (Nat.log2 count : Int) * 30103 / 100000 ≤ 400 := by
    by_contra hlarge
    have hinfinite : Binary64.ofScientific ⟨negative, count, -(places : Int)⟩
        = .infinity negative := by
      simp only [Binary64.ofScientific, if_neg hzero]
      rw [if_pos (by omega)]
    rw [hinfinite] at h
    cases h
  have hdigits : (natDigits count).length ≤ Nat.log2 count + 1 := by
    refine length_natDigits_le (Nat.succ_pos _) ?_
    calc count < 2 ^ (Nat.log2 count + 1) := Nat.lt_log2_self
      _ ≤ 10 ^ (Nat.log2 count + 1) := Nat.pow_le_pow_left (by decide) _
  rw [if_pos]
  unfold Decimal.leadingExponent Decimal.greatestExponent
  omega

/-- A double that compares equal to a finite number is finite. -/
theorem isFinite_of_order {y : Binary64} (hy : y.isNan = false) {cell : Cell}
    (hfinite : ∀ b, cell ≠ .real (.infinity b)) (hnumber : cell.IsNumber)
    (h : cell.order (ColumnType.ofFloat y) = .eq) : y.isFinite = true := by
  cases y with
  | nan => cases hy
  | finite negative m e => rfl
  | infinity b =>
    exfalso
    cases cell with
    | integer n => cases b <;> cases h
    | real x =>
      cases x with
      | nan => cases hnumber
      | infinity b => exact hfinite b rfl
      | finite n m e => cases b <;> cases h
    | _ => exact hnumber.elim

/-- A text is level only with itself. -/
theorem Cell.eq_of_order_text {s : String} {c : Cell} (h : (Cell.text s).order c = .eq) :
    c = .text s := by
  cases c with
  | text s' =>
    have hs : compare s s' = .eq := h
    rw [Std.LawfulEqCmp.eq_of_compare hs]
  | _ => cases h

/-- A text is kept as a text only if it is that one. -/
theorem Cell.eq_of_toward_text {s s' : String} (h : (Cell.text s).toward .numeric = .text s') :
    s = s' := by
  simp only [Cell.toward] at h
  cases hnumber : Cell.number? s with
  | none =>
    rw [hnumber] at h
    exact Cell.text.inj h
  | some d =>
    rw [hnumber, Option.getD_some] at h
    exact (h ▸ Cell.isNumber_of_number? hnumber : Cell.IsNumber (.text s')).elim

theorem length_natDigits_of_bind? {type : ColumnType} {n : Int} {c : Cell}
    (h : type.bind? (.int n) = some c) : (natDigits n.natAbs).length ≤ maxDigits := by
  simp only [ColumnType.bind?, ColumnType.integerCell?, Option.ite_none_right_eq_some] at h
  have hrange := h.1
  simp only [inRange, leastInteger, greatestInteger, Bool.and_eq_true] at hrange
  obtain ⟨hlow, hhigh⟩ := And.intro (of_decide_eq_true hrange.1) (of_decide_eq_true hrange.2)
  have hlength : (natDigits n.natAbs).length ≤ 19 :=
    length_natDigits_le (by decide) (by omega)
  unfold maxDigits
  omega

theorem portable_places {places : Nat} (hplaces : places < 2 ^ 31) {x : Binary64}
    (hx : x.isNan = false) {cell c : Cell} (hnumber : cell.IsNumber)
    (hinfinite : ∀ b, cell = .real (.infinity b) → x = .infinity b)
    (hc : (ColumnType.numeric places true).bind? (ColumnType.places places x) = some c)
    (h : cell.order (c.toward .numeric) = .eq) :
    Cursor.Portable (ColumnType.places places x) := by
  cases x with
  | nan => cases hx
  | infinity b => exact trivial
  | finite negative m e =>
    have hkept (y : Binary64) : (ColumnType.ofFloat y).toward .numeric = ColumnType.ofFloat y := by
      unfold ColumnType.ofFloat
      split <;> rfl
    simp only [ColumnType.places, Binary64.toPlaces?, ColumnType.bind?, Decimal.toBinary64?,
      Option.map_some, Option.some.injEq] at hc
    subst hc
    rw [hkept] at h
    refine inBounds_of_finite hplaces
      (isFinite_of_order (Binary64.isNan_ofScientific _) ?_ hnumber h)
    intro b hb
    cases hinfinite b hb

/-- A time that is kept as it was written has no offset. -/
theorem portable_datetime {s : String} {t : DateTime} (hread : Iso.readDateTime? s.toList = some t)
    {c : Cell} (hc : ColumnType.datetime.bind? (.datetime t) = some c)
    (h : (Cell.text s).order (c.toward .numeric) = .eq) : Cursor.Portable (.datetime t) := by
  simp only [ColumnType.bind?, Option.some.injEq] at hc
  subst hc
  have hs : ColumnType.momentText t = s := Cell.eq_of_toward_text (Cell.eq_of_order_text h)
  have hmoment := Iso.readDateTime?_momentText t
  rw [hs, hread, Option.some.injEq] at hmoment
  rw [Cursor.Portable, Iso.readDateTime?_text, hmoment]
  rfl

theorem portable_of_plain {v : Value} (h : Json.Plain v)
    (hfloat : ∀ x, v = .float x → Json.read? (Json.floatChars x) = some (.float x)) :
    Cursor.Portable v := by
  cases v with
  | int n => exact h
  | float x => exact hfloat x rfl
  | decimal | datetime => exact h.elim
  | _ => trivial

/-- The number of a column comes through a cursor. -/
theorem portable_readNumber {type : ColumnType} (hformat : type.hasFormat = true) {x : Binary64}
    (hx : x.isNan = false) (whole : Option Int) {cell c : Cell} (hnumber : cell.IsNumber)
    (hinfinite : ∀ b, cell = .real (.infinity b) → x = .infinity b)
    (hc : type.bind? (type.readNumber x whole) = some c)
    (h : cell.order (c.toward type.affinity) = .eq)
    (hfloat : ∀ y, type.readNumber x whole = .float y →
      Json.read? (Json.floatChars y) = some (.float y)) :
    Cursor.Portable (type.readNumber x whole) := by
  have hwhole : type.readNumber x whole = (whole.map Value.int).getD (.float x) →
      Cursor.Portable (type.readNumber x whole) := by
    intro heq
    cases whole with
    | none => exact heq ▸ hfloat x heq
    | some n =>
      rw [heq] at hc ⊢
      exact length_natDigits_of_bind? hc
  cases type with
  | numeric places asDecimal =>
    cases asDecimal with
    | true =>
      exact portable_places (by simpa [ColumnType.hasFormat] using hformat) hx hnumber hinfinite
        hc h
    | false => exact hwhole (by cases whole <;> rfl)
  | float => exact hfloat x rfl
  | boolean => trivial
  | _ => exact hwhole (by cases whole <;> rfl)

/-- So does what is read from a number, which is nothing in some columns. -/
theorem portable_readNumber? {type : ColumnType} (hformat : type.hasFormat = true) {x : Binary64}
    (hx : x.isNan = false) (whole : Option Int) {cell c : Cell} (hnumber : cell.IsNumber)
    (hinfinite : ∀ b, cell = .real (.infinity b) → x = .infinity b)
    (hc : type.bind? ((type.readNumber? x whole).getD .null) = some c)
    (h : cell.order (c.toward type.affinity) = .eq)
    (hfloat : ∀ y, (type.readNumber? x whole).getD .null = .float y →
      Json.read? (Json.floatChars y) = some (.float y)) :
    Cursor.Portable ((type.readNumber? x whole).getD .null) := by
  unfold ColumnType.readNumber? at hc hfloat ⊢
  cases hreads : type.readsNumbers with
  | false => trivial
  | true =>
    simp only [hreads, if_true, Option.getD_some] at hc hfloat ⊢
    exact portable_readNumber hformat hx whole hnumber hinfinite hc h hfloat

theorem Binary64.finite_of_ofInt? (n : Int) : ((Binary64.ofInt? n).getD .zero).isNan = false ∧
    ∀ b, (Binary64.ofInt? n).getD .zero ≠ .infinity b := by
  have hnan := Binary64.isNan_ofRatio (n < 0) n.natAbs 1
  unfold Binary64.ofInt?
  cases hx : Binary64.ofRatio (n < 0) n.natAbs 1 with
  | nan =>
    rw [hx] at hnan
    cases hnan
  | infinity b => exact ⟨rfl, fun b => by simp [Binary64.zero]⟩
  | finite negative m e => exact ⟨rfl, fun b => by simp⟩

/-- The value of a cell that reads back comes through a cursor, as far as floating numbers are read
back from their texts. -/
theorem Table.portable_of_readsBack {t : Table} {column : String} {row : Row}
    (hnan : (row.cell column).isNan = false) (h : t.readsBack column row = true)
    (hfloat : ∀ x, t.value column row = .float x →
      Json.read? (Json.floatChars x) = some (.float x)) :
    Cursor.Portable (t.value column row) := by
  obtain ⟨type, c, htype, hformat, hvalue, hc, horder⟩ := readsBack_iff.1 h
  obtain ⟨type', htype', b, hb, rfl⟩ := operand?_eq_some.1 hc
  obtain rfl : type = type' := Option.some.inj (htype.symm.trans htype')
  rw [hvalue] at hfloat hb ⊢
  generalize row.cell column = cell at *
  cases cell with
  | null => trivial
  | integer n =>
    obtain ⟨hx, hfinite⟩ := Binary64.finite_of_ofInt? n
    exact portable_readNumber? hformat hx (some n) (show (Cell.integer n).IsNumber from trivial)
      (by simp) hb horder hfloat
  | real x =>
    refine portable_readNumber? hformat hnan none (show (Cell.real x).IsNumber from hnan) ?_ hb
      horder hfloat
    rintro b ⟨⟩
    rfl
  | text s =>
    simp only [ColumnType.read, ColumnType.read?, ColumnType.readText?] at hb hfloat ⊢
    cases type with
    | date => cases Iso.readDate? s.toList <;> trivial
    | datetime =>
      cases hread : Iso.readDateTime? s.toList with
      | none => trivial
      | some t =>
        simp only [hread, Option.map_some, Option.getD_some] at hb ⊢
        exact portable_datetime hread hb horder
    | uuid => cases Uuid.read? s.toList <;> trivial
    | json =>
      cases hread : Json.read? s.toList with
      | none => trivial
      | some v =>
        simp only [hread, Option.getD_some] at hfloat ⊢
        exact portable_of_plain (Json.plain_of_read? hread) hfloat
    | numeric places asDecimal => cases asDecimal <;> trivial
    | _ => trivial

/-! ## Places -/

namespace Table

variable {t : Table}

/-- The cell for which a cursor at the row stands in a column. A boolean does not compare. -/
def placeIn? (t : Table) (column : String) (row : Row) : Option Cell :=
  match t.value column row with
  | .bool _ => none
  | v => t.operand? column (Cursor.carried v)

/-- The cells for which a cursor at the row stands, if all of them compare. -/
def place? (t : Table) (sort : List SortCriterion) (row : Row) : Option (List Cell) :=
  sort.mapM fun s => t.placeIn? s.field row

/-- The values that a cursor at the row brings back. -/
def brought (t : Table) (sort : List SortCriterion) (row : Row) : List Value :=
  sort.map fun s => Cursor.carried (t.value s.field row)

/-- The value is absent only in an absent cell, and then stands for one. -/
theorem value_ne_null {column : String} {row : Row} {c : Cell}
    (hvalue : t.value column row ≠ .null) {type : ColumnType}
    (hread : t.value column row = type.read (row.cell column))
    (h : (row.cell column).order c = .eq) : c ≠ .null := by
  rintro rfl
  cases hcell : row.cell column with
  | null =>
    rw [hcell] at hread
    exact hvalue hread
  | _ =>
    rw [hcell] at h
    cases h

theorem Stands.isNan {column : String} {v : Value} {c : Cell} (h : t.Stands column v c) :
    c.isNan = false := by
  cases h with
  | absent => rfl
  | present _ _ _ _ nan => exact nan

theorem placeIn?_eq {column : String} {row : Row} (hbool : ∀ b, t.value column row ≠ .bool b) :
    t.placeIn? column row = t.operand? column (Cursor.carried (t.value column row)) := by
  unfold placeIn?
  split
  · rename_i b hb
    exact absurd hb (hbool b)
  · rfl

theorem operand?_null {column : String} {c : Cell} (h : t.operand? column .null = some c) :
    c = .null := by
  obtain ⟨type, -, b, hb, rfl⟩ := operand?_eq_some.1 h
  cases hb
  cases type.affinity <;> rfl

/-- A collection comes back as its text, which stands for a cell wherever the collection does. -/
theorem stands_of_collection {column : String} {v : Value} {c : Cell}
    (h : t.operand? column v = some c) (hv : Cursor.carried v ≠ v) :
    ∃ d, t.operand? column (Cursor.carried v) = some d ∧ t.Stands column (Cursor.carried v) d := by
  obtain ⟨type, htype, b, hb, -⟩ := operand?_eq_some.1 h
  have hjson : type = .json := by
    cases v with
    | list | tuple | mapping =>
      simp only [ColumnType.bind?, Option.ite_none_right_eq_some] at hb
      exact hb.1
    | _ => exact absurd rfl hv
  obtain ⟨s, hs⟩ := Cursor.carried_eq_text hv
  have hd : t.operand? column (.text s) = some (Cell.toward type.affinity (.text s)) :=
    operand?_eq_some.2 ⟨type, htype, .text s, by rw [hjson]; rfl, rfl⟩
  rw [hs]
  exact ⟨_, hd, .present (by simp) (by simp) hd (Cell.toward_text_ne_null s _)
    (isNan_of_operand? hd)⟩

/-- Where a row reads back, its cursor stands for a cell, unless the value is a boolean. -/
theorem stands_of_readsBack {column : String} {row : Row} (h : t.readsBack column row = true)
    (hbool : ∀ b, t.value column row ≠ .bool b) :
    ∃ c, t.placeIn? column row = some c ∧
      t.Stands column (Cursor.carried (t.value column row)) c ∧
      (Cursor.carried (t.value column row) = t.value column row →
        (row.cell column).order c = .eq) := by
  obtain ⟨type, c, htype, -, hread, hc, horder⟩ := readsBack_iff.1 h
  rw [placeIn?_eq hbool]
  by_cases hnull : t.value column row = .null
  · rw [hnull] at hc ⊢
    exact ⟨c, hc, operand?_null hc ▸ .absent, fun _ => horder⟩
  by_cases hsame : Cursor.carried (t.value column row) = t.value column row
  · rw [hsame]
    exact ⟨c, hc, .present hbool hnull hc (value_ne_null hnull hread horder)
      (isNan_of_operand? hc), fun _ => horder⟩
  · obtain ⟨d, hd, hstands⟩ := stands_of_collection hc hsame
    exact ⟨d, hd, hstands, fun h => absurd h hsame⟩

variable {sort : List SortCriterion} {row : Row}

/-- The place of a row that reads back is a position for the keyset condition. -/
theorem placed_of_place? (h : ∀ s ∈ sort, t.readsBack s.field row = true) {cells : List Cell}
    (hplace : t.place? sort row = some cells) : t.Placed sort (t.brought sort row) cells := by
  induction sort generalizing cells with
  | nil =>
    cases hplace
    exact .nil
  | cons s sort ih =>
    simp only [place?, List.mapM_cons, bind, Option.bind_eq_some_iff, pure, Option.some.injEq]
      at hplace
    obtain ⟨c, hc, rest, hrest, rfl⟩ := hplace
    have hbool : ∀ b, t.value s.field row ≠ .bool b := by
      intro b hb
      simp [placeIn?, hb] at hc
    obtain ⟨c', hc', hstands, -⟩ := stands_of_readsBack (h s List.mem_cons_self) hbool
    obtain rfl : c = c' := Option.some.inj (hc.symm.trans hc')
    exact .cons hstands (ih (fun s hs => h s (List.mem_cons_of_mem _ hs)) hrest)

/-- A cursor with a boolean has no place. -/
theorem place?_of_bool {s : SortCriterion} (hs : s ∈ sort) {b : Bool}
    (hb : t.value s.field row = .bool b) : t.place? sort row = none := by
  cases hplace : t.place? sort row with
  | none => rfl
  | some cells =>
    induction sort generalizing cells with
    | nil => cases hs
    | cons s' sort ih =>
      simp only [place?, List.mapM_cons, bind, Option.bind_eq_some_iff, pure, Option.some.injEq]
        at hplace
      obtain ⟨c, hc, rest, hrest, -⟩ := hplace
      rcases List.mem_cons.1 hs with rfl | hs
      · simp [placeIn?, hb] at hc
      · exact absurd (ih hs rest hrest) (by simp)

/-- A cursor at a row that reads back has a place unless it holds a boolean. -/
theorem place?_eq_none (h : ∀ s ∈ sort, t.readsBack s.field row = true)
    (hplace : t.place? sort row = none) : ∃ s ∈ sort, ∃ b, t.value s.field row = .bool b := by
  by_contra hbool
  push Not at hbool
  have hall : ∀ s ∈ sort, ∃ c, t.placeIn? s.field row = some c := fun s hs => by
    obtain ⟨c, hc, -⟩ := stands_of_readsBack (h s hs) (hbool s hs)
    exact ⟨c, hc⟩
  clear h hbool
  induction sort with
  | nil => cases hplace
  | cons s sort ih =>
    obtain ⟨c, hc⟩ := hall s List.mem_cons_self
    cases hrest : t.place? sort row with
    | none => exact ih hrest fun s hs => hall s (List.mem_cons_of_mem _ hs)
    | some rest =>
      unfold place? at hplace hrest
      simp [hc, hrest] at hplace

/-- Without collections, the place of a row is level with it: it compares like the row. -/
theorem level_of_place? (hnan : row.Ordered (sortKeys sort))
    (h : ∀ s ∈ sort, t.readsBack s.field row = true)
    (hcarried : ∀ s ∈ sort, Cursor.carried (t.value s.field row) = t.value s.field row)
    {cells : List Cell} (hplace : t.place? sort row = some cells) (other : Row) :
    comparePosition (sortKeys sort) cells other = compareRanks (sortKeys sort) row other := by
  refine comparePosition_eq ?_ other
  induction sort generalizing cells with
  | nil =>
    cases hplace
    exact .nil
  | cons s sort ih =>
    simp only [place?, List.mapM_cons, bind, Option.bind_eq_some_iff, pure, Option.some.injEq]
      at hplace
    obtain ⟨c, hc, rest, hrest, rfl⟩ := hplace
    have hbool : ∀ b, t.value s.field row ≠ .bool b := by
      intro b hb
      simp [placeIn?, hb] at hc
    obtain ⟨c', hc', hstands, horder⟩ := stands_of_readsBack (h s List.mem_cons_self) hbool
    obtain rfl : c = c' := Option.some.inj (hc.symm.trans hc')
    have hcell : (row.cell s.field).isNan = false :=
      hnan ⟨s.field, s.direction⟩ List.mem_cons_self
    have hcnan : c.isNan = false := hstands.isNan
    refine .cons ?_ (ih (fun k hk => hnan k (List.mem_cons_of_mem _ hk))
      (fun s hs => h s (List.mem_cons_of_mem _ hs))
      (fun s hs => hcarried s (List.mem_cons_of_mem _ hs)) hrest)
    rw [← Cell.order_eq_compareRank hcell hcnan]
    exact horder (hcarried s List.mem_cons_self)

/-- Without booleans and collections, a row has a place, which is level with it. -/
theorem exists_place_of_steady (hnan : row.Ordered (sortKeys sort))
    (h : ∀ s ∈ sort, t.readsBack s.field row = true)
    (hsteady : ∀ s ∈ sort, Cursor.isSteady (t.value s.field row) = true) :
    ∃ cells, t.place? sort row = some cells ∧ ∀ other,
      comparePosition (sortKeys sort) cells other = compareRanks (sortKeys sort) row other := by
  cases hplace : t.place? sort row with
  | none =>
    obtain ⟨s, hs, b, hb⟩ := place?_eq_none h hplace
    have hbool := hsteady s hs
    rw [hb] at hbool
    cases hbool
  | some cells =>
    refine ⟨cells, rfl, level_of_place? hnan h ?_ hplace⟩
    intro s hs
    exact Cursor.carried_of_isSteady (hsteady s hs)

end Table
end Store
end RecordQuery
