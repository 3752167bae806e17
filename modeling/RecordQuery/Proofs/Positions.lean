import RecordQuery.Cursor
import RecordQuery.Proofs.CalendarText
import RecordQuery.Proofs.Literals
import RecordQuery.Proofs.Tokens

/-!
# Positions in cursors

A cursor carries the sort values of a row through a signed text.

* `Cursor.carried`: the value that comes back. Collections come back as their texts.
* `Cursor.isSteady`: the value is neither a collection nor a boolean.
* `Cursor.Portable`: the values that come through: every one whose own text is read back.
* `Cursor.decode_encode`: the position in a cursor is the one that was put there, as it is carried.
-/

namespace RecordQuery.Cursor

open RecordQuery.Number RecordQuery.Calendar RecordQuery.Text

/-- What a cursor brings back for a value. -/
def carried : Value → Value
  | .list items => .text (Value.list items).toText
  | .tuple items => .text (Value.tuple items).toText
  | .mapping entries => .text (Value.mapping entries).toText
  | v => v

/-- The value comes back as it is, and can then be compared: it is no collection and no boolean. -/
def isSteady : Value → Bool
  | .bool _ | .list _ | .tuple _ | .mapping _ => false
  | _ => true

theorem carried_of_isSteady {v : Value} (h : isSteady v = true) : carried v = v := by
  cases v <;> first | rfl | cases h

/-- A value that does not come back as it is comes back as a text. -/
theorem carried_eq_text {v : Value} (h : carried v ≠ v) : ∃ s, carried v = .text s := by
  cases v with
  | list | tuple | mapping => exact ⟨_, rfl⟩
  | _ => exact absurd rfl h

/-- A cursor brings the value back: its text is read as the value. -/
def Portable : Value → Prop
  | .int n => (natDigits n.natAbs).length ≤ maxDigits
  | .float x => Json.read? (Json.floatChars x) = some (.float x)
  | .decimal d => d.InBounds
  | .datetime t => Iso.readDateTime? t.text.toList = some t
  | _ => True

theorem untag_tag {v : Value} (h : Portable v) : untag (tag v) = .ok (carried v) := by
  cases v with
  | decimal d =>
    have hread : Decimal.read? d.text.toList = some d := by
      rw [Decimal.text, String.toList_ofList]
      exact Decimal.read?_chars h
    simp only [tag, untag, untagAs, decimalOf, hread]
    rfl
  | date d =>
    have hread : Iso.readDate? d.text.toList = some d := by
      rw [Date.text, String.toList_ofList]
      exact Iso.readDate?_chars d
    simp only [tag, untag, untagAs, Value.text?, Option.bind_some, hread]
    rfl
  | datetime t =>
    have hread : Iso.readDateTime? t.text.toList = some t := h
    simp only [tag, untag, untagAs, Value.text?, Option.bind_some, hread]
    rfl
  | uuid u =>
    have hread : Uuid.read? u.text.toList = some u := by
      rw [Uuid.text, String.toList_ofList]
      exact Uuid.read?_chars u
    simp only [tag, untag, untagAs, uuidOf, hread]
    rfl
  | text s =>
    have htext : Value.toText (.text s) = s := by
      rw [Value.toText, Value.chars, String.ofList_toList]
    simp only [tag, htext]
    rfl
  | _ => rfl

theorem readable_tag {v : Value} (h : Portable v) (room : Nat) :
    Json.Readable (room + 1) (tag v) := by
  cases v with
  | int n => exact ⟨trivial, h, trivial⟩
  | float x => exact ⟨trivial, h, trivial⟩
  | _ => exact ⟨trivial, trivial, trivial⟩

/-- The tagged values are read one by one. -/
theorem untagAll_map {values : List Value} {f : Value → Value}
    (h : ∀ v ∈ values, untag (tag v) = .ok (f v)) :
    untagAll (values.map tag) = .ok (values.map f) := by
  induction values with
  | nil => rfl
  | cons v values ih =>
    have hrest := ih fun w hw => h w (List.mem_cons_of_mem _ hw)
    simp only [List.map_cons, untagAll, h v List.mem_cons_self, hrest, bind, Except.bind, pure,
      Except.pure]

/-! ## Tokens -/

theorem readable_claims {room : Nat} {values : List Value}
    (h : ∀ v ∈ values, Json.Readable room (tag v)) (sort : List SortCriterion) :
    Json.Readable (room + 2) (.mapping (claims values sort)) := by
  have hlist : Json.ReadableList room (values.map tag) := by
    induction values with
    | nil => exact trivial
    | cons v values ih =>
      exact ⟨h v List.mem_cons_self, ih fun w hw => h w (List.mem_cons_of_mem _ hw)⟩
  refine ⟨⟨trivial, trivial, hlist, trivial⟩, ?_⟩
  simp [claims]

/-- No registered claim is among those of a cursor. -/
theorem checkClaims_claims (now : Int) (values : List Value) (sort : List SortCriterion) :
    Token.checkClaims now (claims values sort) = .ok () := rfl

theorem eqv_text_self (s : String) : (Value.text s).eqv (.text s) = true := by
  simp [Value.eqv, Value.compare?]

/-- Texts are equal by value only if they are the same. -/
theorem eqv_text_iff {v : Value} {s : String} : v.eqv (.text s) = true ↔ v = .text s := by
  constructor
  · intro h
    cases v with
    | text s' =>
      simp only [Value.eqv, Value.compare?, beq_iff_eq, Option.some.injEq,
        Std.LawfulEqOrd.compare_eq_iff_eq] at h
      rw [h]
    | _ => simp [Value.eqv, Value.compare?, Value.number?] at h
  · rintro rfl
    exact eqv_text_self s

/-- Under its own order the position of a cursor is read from the tagged values. -/
theorem position_claims {values : List Value} {sort : List SortCriterion}
    (hlength : values.length = sort.length) :
    position sort (claims values sort) = untagAll (values.map tag) := by
  have hv : (claims values sort).get? "v" = some (.text version) := rfl
  have hs : (claims values sort).get? "s" = some (.text (signature sort)) := rfl
  have hk : (claims values sort).get? "k" = some (.list (values.map tag)) := rfl
  simp [position, hv, hs, hk, eqv_text_self, hlength]

/-- An order with another digest has no part in it. -/
theorem position_claims_of_ne {sort other : List SortCriterion}
    (h : signature sort ≠ signature other) (values : List Value) :
    position other (claims values sort) = .error .otherSort := by
  have hv : (claims values sort).get? "v" = some (.text version) := rfl
  have hs : (claims values sort).get? "s" = some (.text (signature sort)) := rfl
  have hne : (Value.text (signature sort)).eqv (.text (signature other)) = false :=
    Bool.eq_false_iff.2 fun heqv => h (Value.text.inj (eqv_text_iff.1 heqv))
  simp [position, hv, hs, eqv_text_self, hne]

/-- No character of a cursor is a blank. -/
theorem trimChars_encode (secret : Option String) (values : List Value)
    (sort : List SortCriterion) :
    trimChars (encode secret values sort).toList = (encode secret values sort).toList := by
  rw [encode, String.toList_ofList]
  apply stripChars_of_forall
  intro c hc
  rcases Token.plain_of_mem_sign hc with rfl | ⟨bytes, hc⟩
  · decide
  · exact isBlank_of_plain (Digest.Base64.plain_of_mem_encode hc).2

theorem encode_ne_empty (secret : Option String) (values : List Value)
    (sort : List SortCriterion) : (encode secret values sort).toList ≠ [] := by
  rw [encode, String.toList_ofList]
  simp [Token.sign]

section Token

variable {secret : Option String} {values : List Value} {sort : List SortCriterion}

/-- The room that is left for the values of a cursor. -/
def tagRoom : Nat := callRoom - 2

/-- A cursor is looked at once its signature is found to fit. -/
theorem decode_encode_eq (hhonours : Token.Honours (effectiveSecret secret) (claims values sort))
    (hreadable : ∀ v ∈ values, Json.Readable tagRoom (tag v)) (now : Int)
    (other : List SortCriterion) :
    decode secret now (encode secret values sort) other = position other (claims values sort) := by
  have htrim := trimChars_encode secret values sort
  have hne := encode_ne_empty secret values sort
  have hread := Token.read_sign (readable_claims hreadable sort) hhonours
    (checkClaims_claims now values sort)
  unfold decode
  rw [htrim]
  split
  · rename_i hnil
    exact absurd hnil hne
  · rw [encode, String.toList_ofList, hread]

/-- Else it is refused, whatever the order. -/
theorem decode_encode_of_not
    (hhonours : ¬ Token.Honours (effectiveSecret secret) (claims values sort))
    (hreadable : ∀ v ∈ values, Json.Readable tagRoom (tag v)) (now : Int)
    (other : List SortCriterion) :
    ∃ e, e ≠ .otherSort ∧ decode secret now (encode secret values sort) other = .error e := by
  have htrim := trimChars_encode secret values sort
  obtain ⟨e, hread⟩ := Token.read_sign_of_not (readable_claims hreadable sort) hhonours now
  unfold decode
  rw [htrim]
  split
  · exact ⟨.invalid, by simp, rfl⟩
  · rw [encode, String.toList_ofList, hread]
    cases e with
    | invalid => exact ⟨.invalid, by simp, rfl⟩
    | fault f => exact ⟨.fault f, by simp, rfl⟩

/-- The position in a cursor is the one that was put there, as it is carried. -/
theorem decode_encode (hhonours : Token.Honours (effectiveSecret secret) (claims values sort))
    (h : ∀ v ∈ values, Portable v) (hlength : values.length = sort.length) (now : Int) :
    decode secret now (encode secret values sort) sort = .ok (values.map carried) := by
  rw [decode_encode_eq hhonours (fun v hv => readable_tag (h v hv) _), position_claims hlength]
  exact untagAll_map fun v hv => untag_tag (h v hv)

end Token

end RecordQuery.Cursor
