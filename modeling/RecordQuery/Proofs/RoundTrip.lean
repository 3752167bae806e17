import RecordQuery.Proofs.FloatText
import RecordQuery.Proofs.Positions

/-!
# The way of values through a cursor

A cursor is minted under a secret and read under the keys that the secret stands for. What comes
back depends on two things: that one of those keys gives the signature of the secret, and that the
offset of a time is none that counts as none.

* `Cursor.Writable`: the values for which a cursor can be written.
* `Cursor.Typed`: those of a type that has a tag of its own.
* `Cursor.returned`: what is read of the tagged value.
* `Cursor.decode_own_iff`: the values come back, in their order and with their types, in exactly
  that case.
-/

namespace RecordQuery.Cursor

open RecordQuery.Number RecordQuery.Calendar

/-! ## Values that have a tag -/

/-- The value can be written: an integer has not too many digits for that, and a float is a
double. -/
def Writable : Value → Prop
  | .int n => (natDigits n.natAbs).length ≤ maxDigits
  | .float x => x.IsDouble
  | _ => True

/-- The value is of a type that has a tag of its own, and is not the decimal that is no number. -/
def Typed : Value → Prop
  | .decimal d => d.InBounds
  | .list _ | .tuple _ | .mapping _ => False
  | _ => True

theorem Writable.readable_tag {v : Value} (h : Writable v) (room : Nat) :
    Json.Readable (room + 1) (tag v) := by
  cases v with
  | int n => exact ⟨trivial, h, trivial⟩
  | float x => exact ⟨trivial, Json.read?_floatChars h, trivial⟩
  | _ => exact ⟨trivial, trivial, trivial⟩

/-- What is read of the tagged value: an offset below a second counts as none. -/
def returned : Value → Value
  | .datetime t => .datetime { t with offset := t.offset.map Offset.counted }
  | v => v

theorem untag_tag_of_typed {v : Value} (hwritable : Writable v) (htyped : Typed v) :
    untag (tag v) = .ok (returned v) := by
  cases v with
  | datetime t =>
    simp only [tag, untag, untagAs, Value.text?, Option.bind_some, Iso.readDateTime?_text]
    rfl
  | float x => exact untag_tag (v := .float x) (Json.read?_floatChars hwritable)
  | int n => exact untag_tag (v := .int n) hwritable
  | decimal d => exact untag_tag (v := .decimal d) htyped
  | list | tuple | mapping => exact htyped.elim
  | null => exact untag_tag (v := .null) trivial
  | bool b => exact untag_tag (v := .bool b) trivial
  | date d => exact untag_tag (v := .date d) trivial
  | uuid u => exact untag_tag (v := .uuid u) trivial
  | text s => exact untag_tag (v := .text s) trivial

/-! ## Offsets -/

/-- The offsets of the times among the values are read back. -/
def OffsetsCount (values : List Value) : Prop :=
  ∀ t o, .datetime t ∈ values → t.offset = some o →
    o.micros = 0 ∨ microsPerSecond ≤ o.micros.natAbs

theorem returned_datetime_iff (t : DateTime) : returned (.datetime t) = .datetime t ↔
    ∀ o, t.offset = some o → o.micros = 0 ∨ microsPerSecond ≤ o.micros.natAbs := by
  obtain ⟨date, time, offset⟩ := t
  cases offset with
  | none => simp [returned]
  | some o => simp [returned, Offset.counted_eq_self_iff]

theorem map_returned_iff (values : List Value) :
    values.map returned = values ↔ OffsetsCount values := by
  have hsteady : values.map returned = values ↔ ∀ v ∈ values, returned v = v := by
    constructor
    · intro h v hv
      exact (List.map_inj_left.1 (h.trans (List.map_id values).symm)) v hv
    · intro h
      exact (List.map_congr_left h).trans (List.map_id values)
  rw [hsteady]
  constructor
  · intro h t o ht
    exact (returned_datetime_iff t).1 (h _ ht) o
  · intro h v hv
    cases v with
    | datetime t => exact (returned_datetime_iff t).2 fun o => h t o hv
    | _ => rfl

/-! ## Cursors under their own secret and order -/

section Own

variable {values : List Value} (hwritable : ∀ v ∈ values, Writable v)
  (htyped : ∀ v ∈ values, Typed v) {sort : List SortCriterion}
  (hlength : values.length = sort.length) (secret : Option String) (now : Int)

include hwritable htyped hlength

theorem decode_own (hhonours : Token.Honours (effectiveSecret secret) (claims values sort)) :
    decode secret now (encode secret values sort) sort = .ok (values.map returned) := by
  rw [decode_encode_eq hhonours fun v hv => (hwritable v hv).readable_tag _,
    position_claims hlength]
  exact untagAll_map fun v hv => untag_tag_of_typed (hwritable v hv) (htyped v hv)

/-- The values of a cursor come back, in their order and with their types, if and only if one of the
keys of the secret gives its signature and no offset of a time is a part of a second. A secret that
is no JSON text gives its signature. -/
theorem decode_own_iff :
    (decode secret now (encode secret values sort) sort = .ok values ↔
      Token.Honours (effectiveSecret secret) (claims values sort) ∧ OffsetsCount values) ∧
    (Token.heldBy? (effectiveSecret secret) = none →
      Token.Honours (effectiveSecret secret) (claims values sort)) := by
  refine ⟨?_, fun h => Token.honours_of_keys (Token.keys_of_not_json h) _⟩
  by_cases hhonours : Token.Honours (effectiveSecret secret) (claims values sort)
  · rw [decode_own hwritable htyped hlength secret now hhonours, Except.ok.injEq,
      map_returned_iff]
    exact ⟨fun h => ⟨hhonours, h⟩, fun h => h.2⟩
  · obtain ⟨e, -, hdecode⟩ := decode_encode_of_not hhonours
      (fun v hv => (hwritable v hv).readable_tag _) now sort
    rw [hdecode]
    constructor
    · intro h
      cases h
    · exact fun h => absurd h.1 hhonours

end Own

/-! ## One value of each type -/

def oneOfEach : List Value :=
  [.null, .bool true, .int (-12345678901234567890), .text "Élan\n\"2\"",
    .float (.ofScientific ⟨false, 1, -1⟩), .decimal (.finite true 150 (-2)),
    .date ⟨2024, 2, 29, by decide⟩,
    .datetime {
      date := ⟨2024, 2, 29, by decide⟩
      time := ⟨23, 59, 0, 250000, by decide⟩
      offset := some ⟨-19800 * microsPerSecond, by decide⟩ },
    .uuid ⟨11, by decide⟩]

def oneOrderEach : List SortCriterion :=
  ["a", "b", "c", "d", "e", "f", "g", "h", "i"].map fun field => ⟨field, .desc⟩

theorem oneOfEach_comes_back :
    (∀ v ∈ oneOfEach, Writable v) ∧ (∀ v ∈ oneOfEach, Typed v) ∧
      oneOfEach.length = oneOrderEach.length ∧
      decode (some " s1 ") 0 (encode (some " s1 ") oneOfEach oneOrderEach) oneOrderEach
        = .ok oneOfEach := by
  have hwritable : ∀ v ∈ oneOfEach, Writable v := by
    simp only [oneOfEach, List.forall_mem_cons, Writable]
    exact ⟨trivial, trivial, by decide +kernel, trivial, Binary64.isDouble_ofScientific _, by simp⟩
  have htyped : ∀ v ∈ oneOfEach, Typed v := by
    simp only [oneOfEach, List.forall_mem_cons, Typed]
    exact ⟨trivial, trivial, trivial, trivial, trivial, rfl, by simp⟩
  have hoffsets : OffsetsCount oneOfEach := by
    intro t o ht ho
    simp only [oneOfEach, List.mem_cons, reduceCtorEq, Value.datetime.injEq, false_or, or_false,
      List.not_mem_nil] at ht
    subst ht
    obtain rfl := Option.some.inj ho
    exact .inr (by decide)
  have hlength : oneOfEach.length = oneOrderEach.length := rfl
  have hcomes := decode_own_iff hwritable htyped hlength (some " s1 ") 0
  exact ⟨hwritable, htyped, hlength, hcomes.1.2 ⟨hcomes.2 (by decide +kernel), hoffsets⟩⟩

end RecordQuery.Cursor
