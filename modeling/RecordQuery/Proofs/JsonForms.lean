import RecordQuery.Json.Reader
import RecordQuery.Proofs.Digits
import RecordQuery.Proofs.Results
import RecordQuery.Response.Serialized

/-!
# What JSON texts hold

* `Json.readWith_eq_ok`: what it takes to read a whole text.
* `Json.Closed`: a property of whatever is read from a JSON text, if it is one of the scalars and of
  collections of such values.
* `Json.Plain`: the values that JSON has a form for, with integers that are not too long.
* `Json.plain_of_read?`: whatever is read from a JSON text is such a value.
* `Value.serialized_of_plain`: such a value stands in an answer as it is.
-/

namespace RecordQuery

open RecordQuery.Number

namespace Number

/-- A number has no more digits than the text that it is read from. -/
theorem lt_of_digitsFrom {cs : List Char} {acc n : Nat} (h : digitsFrom acc cs = some n) :
    n < (acc + 1) * 10 ^ cs.length := by
  induction cs generalizing acc with
  | nil =>
    simp only [digitsFrom, Option.some.injEq] at h
    simp [h]
  | cons c cs ih =>
    obtain ⟨v, hv, hrest⟩ := Option.bind_eq_some_iff.1 h
    have hv10 : v ≤ 9 := by
      unfold digitValue? at hv
      split at hv
      · rename_i hc
        have hle : c.toNat ≤ 0x39 := hc.2
        simp only [Option.some.injEq] at hv
        have : '0'.toNat = 0x30 := rfl
        omega
      · cases hv
    calc n < (10 * acc + v + 1) * 10 ^ cs.length := ih hrest
      _ ≤ ((acc + 1) * 10) * 10 ^ cs.length := Nat.mul_le_mul_right _ (by omega)
      _ = (acc + 1) * 10 ^ (c :: cs).length := by
        rw [List.length_cons, Nat.pow_succ, Nat.mul_assoc, Nat.mul_comm 10]

theorem length_natDigits_of_readNat {cs : List Char} {n : Nat} (h : readNat cs = some n) :
    (natDigits n).length ≤ cs.length := by
  unfold readNat at h
  split at h
  · cases h
  · rename_i hne
    have hpos : 0 < cs.length := by
      cases cs with
      | nil => exact absurd rfl hne
      | cons => simp
    exact length_natDigits_le hpos (by simpa using lt_of_digitsFrom h)

end Number

/-- What holds of the values of a mapping and of another one holds of all when that is put in. -/
theorem Entries.forall_put {P : Value → Prop} {entries : Entries} (h : ∀ e ∈ entries, P e.2)
    (key : String) {v : Value} (hv : P v) : ∀ e ∈ entries.put key v, P e.2 := by
  induction entries with
  | nil => simpa [Entries.put] using hv
  | cons e rest ih =>
    obtain ⟨k, w⟩ := e
    obtain ⟨hhead, hrest⟩ := List.forall_mem_cons.1 h
    by_cases hk : k = key
    · simp only [Entries.put, hk, if_true]
      exact List.forall_mem_cons.2 ⟨hv, hrest⟩
    · simp only [Entries.put, hk, if_false]
      exact List.forall_mem_cons.2 ⟨hhead, ih hrest⟩

namespace Json

mutual

/-- JSON has a form for the value, and its integers are no longer than a reader takes them. -/
def Plain : Value → Prop
  | .null | .bool _ | .float _ | .text _ => True
  | .int n => (natDigits n.natAbs).length ≤ maxDigits
  | .list items => PlainList items
  | .mapping entries => PlainEntries entries
  | _ => False

def PlainList : List Value → Prop
  | [] => True
  | v :: rest => Plain v ∧ PlainList rest

def PlainEntries : Entries → Prop
  | [] => True
  | (_, v) :: rest => Plain v ∧ PlainEntries rest

end

theorem plainList_iff {vs : List Value} : PlainList vs ↔ ∀ v ∈ vs, Plain v := by
  induction vs with
  | nil => simp [PlainList]
  | cons v vs ih => simp [PlainList, ih]

theorem plainEntries_iff {es : Entries} : PlainEntries es ↔ ∀ e ∈ es, Plain e.2 := by
  induction es with
  | nil => simp [PlainEntries]
  | cons e es ih => simp [PlainEntries, ih]

/-! ## Readers -/

/-- A text is read as the value at its beginning if nothing but blanks comes after it. -/
theorem readWith_eq_ok {number : List Char → Option (Value × List Char)} {cs : List Char}
    {v : Value} : readWith number cs = .ok v ↔
      ∃ rest, value number callRoom (2 * cs.length + 2) (skipSpace cs) = .ok (v, rest) ∧
        skipSpace rest = [] := by
  unfold readWith
  constructor
  · intro h
    obtain ⟨⟨w, rest⟩, hvalue, h⟩ := bind_eq_ok.1 h
    simp only at h
    split at h
    · rename_i hblank
      cases h
      exact ⟨rest, hvalue, List.isEmpty_iff.1 hblank⟩
    · cases h
  · rintro ⟨rest, hvalue, hblank⟩
    simp only [hvalue, bind, Except.bind, hblank]
    rfl

theorem plain_of_ofParts? {negative : Bool} {whole fraction : List Char} {exponent : Option Int}
    {v : Value} (h : ofParts? negative whole fraction exponent = some v) : Plain v := by
  unfold ofParts? at h
  split at h
  · cases h
  split at h
  · split at h
    · cases h
    · rename_i hlength
      obtain ⟨n, hn, rfl⟩ := Option.map_eq_some_iff.1 h
      have habs : (if negative then -(n : Int) else n).natAbs = n := by
        cases negative <;> simp
      have := length_natDigits_of_readNat hn
      show (natDigits (if negative then -(n : Int) else n).natAbs).length ≤ maxDigits
      rw [habs]
      omega
  · obtain ⟨n, -, rfl⟩ := Option.map_eq_some_iff.1 h
    trivial

/-- A property that words and numbers have, and collections if their members have it. -/
structure Closed (P : Value → Prop) : Prop where
  word : ∀ w ∈ words, P w.2
  number {negative : Bool} {whole fraction : List Char} {exponent : Option Int} {v : Value} :
    ofParts? negative whole fraction exponent = some v → P v
  text (s : String) : P (.text s)
  list {items : List Value} : (∀ v ∈ items, P v) → P (.list items)
  mapping {entries : Entries} : (∀ e ∈ entries, P e.2) → P (.mapping entries)

/-- What the readers of values, items and members give with some fuel. -/
structure Gives (P : Value → Prop) (fuel : Nat) : Prop where
  value {room : Nat} {cs rest : List Char} {v : Value} :
    value number? room fuel cs = .ok (v, rest) → P v
  items {room : Nat} {cs rest : List Char} {vs : List Value} :
    items number? room fuel cs = .ok (vs, rest) → ∀ v ∈ vs, P v
  members {room : Nat} {done es : Entries} {cs rest : List Char} : (∀ e ∈ done, P e.2) →
    members number? room fuel done cs = .ok (es, rest) → ∀ e ∈ es, P e.2

namespace Closed

variable {P : Value → Prop} (hP : Closed P)

include hP

theorem of_word? {cs rest : List Char} {v : Value} (h : word? cs = some (v, rest)) : P v := by
  obtain ⟨w, hmem, h⟩ := List.exists_of_findSome?_eq_some h
  obtain ⟨_, -, hv⟩ := Option.map_eq_some_iff.1 h
  cases hv
  exact hP.word w hmem

theorem of_value {fuel : Nat} (ih : Gives P fuel) {room : Nat} {cs rest : List Char} {v : Value}
    (h : value number? room (fuel + 1) cs = .ok (v, rest)) : P v := by
  unfold value at h
  split at h
  · obtain ⟨_, -, h⟩ := map_eq_ok.1 h
    cases h
    exact hP.text _
  · split at h
    · cases h
    · split at h
      · cases h
        exact hP.list (by simp)
      · obtain ⟨_, hitems, h⟩ := map_eq_ok.1 h
        cases h
        exact hP.list (ih.items hitems)
  · split at h
    · cases h
    · split at h
      · cases h
        exact hP.mapping (by simp)
      · obtain ⟨_, hmembers, h⟩ := map_eq_ok.1 h
        cases h
        exact hP.mapping (ih.members (by simp) hmembers)
  · split at h
    · rename_i hword
      cases h
      exact hP.of_word? hword
    · obtain ⟨_, hparts, h⟩ := Option.map_eq_some_iff.1 (wellFormed_eq_ok.1 h)
      cases h
      exact hP.number hparts

omit hP in
theorem of_items {fuel : Nat} (ih : Gives P fuel) {room : Nat} {cs rest : List Char}
    {vs : List Value} (h : items number? room (fuel + 1) cs = .ok (vs, rest)) : ∀ v ∈ vs, P v := by
  unfold items at h
  obtain ⟨⟨v, after⟩, hv, h⟩ := bind_eq_ok.1 h
  have hhead := ih.value hv
  simp only at h
  split at h
  · cases h
    simpa using hhead
  · obtain ⟨_, hrest, h⟩ := bind_eq_ok.1 h
    cases h
    exact List.forall_mem_cons.2 ⟨hhead, ih.items hrest⟩
  · cases h

omit hP in
theorem of_members {fuel : Nat} (ih : Gives P fuel) {room : Nat} {done es : Entries}
    {cs rest : List Char} (hdone : ∀ e ∈ done, P e.2)
    (h : members number? room (fuel + 1) done cs = .ok (es, rest)) : ∀ e ∈ es, P e.2 := by
  unfold members at h
  split at h
  · obtain ⟨⟨key, after⟩, -, h⟩ := bind_eq_ok.1 h
    simp only at h
    split at h
    · obtain ⟨⟨v, after⟩, hv, h⟩ := bind_eq_ok.1 h
      have hput := Entries.forall_put hdone (.ofList key) (ih.value hv)
      simp only at h
      split at h
      · cases h
        exact hput
      · exact ih.members hput h
      · cases h
    · cases h
  · cases h

theorem gives (fuel : Nat) : Gives P fuel := by
  induction fuel with
  | zero =>
    refine ⟨fun h => ?_, fun h => ?_, fun _ h => ?_⟩
    · rw [value] at h
      cases h
    · rw [items] at h
      cases h
    · rw [members] at h
      cases h
  | succ fuel ih => exact ⟨hP.of_value ih, of_items ih, of_members ih⟩

/-- Whatever is read from a JSON text has the property. -/
theorem of_read? {cs : List Char} {v : Value} (h : read? cs = some v) : P v := by
  obtain ⟨_, hvalue, -⟩ := readWith_eq_ok.1 (read?_eq_some.1 h)
  exact (hP.gives _).value hvalue

end Closed

theorem closed_plain : Closed Plain where
  word := by
    intro w hw
    simp only [words, List.mem_cons, List.not_mem_nil, or_false] at hw
    rcases hw with rfl | rfl | rfl | rfl | rfl | rfl
    all_goals trivial
  number := plain_of_ofParts?
  text _ := trivial
  list := plainList_iff.2
  mapping := plainEntries_iff.2

/-- Whatever is read from a JSON text has a form in JSON. -/
theorem plain_of_read? {cs : List Char} {v : Value} (h : read? cs = some v) : Plain v :=
  closed_plain.of_read? h

end Json

/-! ## Answers -/

namespace Value

mutual

theorem serialized_of_plain : ∀ {v : Value}, Json.Plain v → ∃ w, serialized v = .ok w
  | .null, _ | .bool _, _ | .int _, _ | .float _, _ | .text _, _ => ⟨_, rfl⟩
  | .list _, h => by
    obtain ⟨ws, hws⟩ := serializedList_of_plain h
    exact ⟨.list ws, by simp [serialized, hws, Except.map]⟩
  | .mapping _, h => by
    obtain ⟨ws, hws⟩ := serializedEntries_of_plain h
    exact ⟨.mapping ws, by simp [serialized, hws, Except.map]⟩

theorem serializedList_of_plain : ∀ {vs : List Value}, Json.PlainList vs →
    ∃ ws, serializedList vs = .ok ws
  | [], _ => ⟨[], rfl⟩
  | _ :: _, h => by
    obtain ⟨w, hw⟩ := serialized_of_plain h.1
    obtain ⟨ws, hws⟩ := serializedList_of_plain h.2
    exact ⟨w :: ws, by simp [serializedList, hw, hws, bind, Except.bind, pure, Except.pure]⟩

theorem serializedEntries_of_plain : ∀ {es : Entries}, Json.PlainEntries es →
    ∃ ws, serializedEntries es = .ok ws
  | [], _ => ⟨[], rfl⟩
  | (k, _) :: _, h => by
    obtain ⟨w, hw⟩ := serialized_of_plain h.1
    obtain ⟨ws, hws⟩ := serializedEntries_of_plain h.2
    exact ⟨(k, w) :: ws,
      by simp [serializedEntries, hw, hws, bind, Except.bind, pure, Except.pure]⟩

end

end Value
end RecordQuery
