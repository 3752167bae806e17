import RecordQuery.Proofs.KeyOrder

/-!
# Repeated keys

The pairs of a query string are folded into parameters one after the other. A key keeps the place at
which it first came; its value turns from a text into a list when it comes again, and grows with
every further text. What stands between two pairs with the same key does not matter.

* `Params.add_eq_put`: a pair writes one entry.
* `Params.keys_ofPairs`, `Params.get?_ofPairs`: the keys of folded pairs, and what is found at each.
* `Params.ofTexts_folds`: for texts, what the fold has to be.
* `Params.ofTexts_eq_iff`: which pairs are folded alike.
-/

namespace RecordQuery.Params

/-! ## The values of a key -/

/-- The values of the pairs with a key, in the order in which they came. -/
def sent {α : Type} (pairs : List (String × α)) (key : String) : List α :=
  (pairs.filter fun p => p.1 == key).map (·.2)

/-- What a parameter is after another value of its key. -/
def joined : Option Value → Value → Value
  | none, v => v
  | some existing, v => .list (occurrences existing ++ [v])

/-- The values of one key as one value: the only one is kept as it is, several are a list. -/
def gathered : List Value → Option Value
  | [] => none
  | [v] => some v
  | v :: w :: rest => some (.list (occurrences v ++ w :: rest))

section Sent

variable {α : Type} (pairs : List (String × α)) (p : String × α) {key : String}

theorem sent_append_of_eq (h : p.1 = key) : sent (pairs ++ [p]) key = sent pairs key ++ [p.2] := by
  simp [sent, h]

theorem sent_append_of_ne (h : p.1 ≠ key) : sent (pairs ++ [p]) key = sent pairs key := by
  simp [sent, h]

theorem sent_map {β : Type} (f : α → β) (key : String) :
    sent (pairs.map fun p => (p.1, f p.2)) key = (sent pairs key).map f := by
  simp only [sent, List.filter_map, List.map_map, Function.comp_def]

end Sent

/-- Another value joins what the ones before it have gathered into. -/
theorem gathered_append (values : List Value) (v : Value) :
    gathered (values ++ [v]) = some (joined (gathered values) v) := by
  match values with
  | [] => rfl
  | [_] => rfl
  | w :: x :: rest => simp [gathered, joined, occurrences]

section Texts

variable (texts : List String)

theorem gathered_eq_text_iff {text : String} :
    gathered (texts.map .text) = some (.text text) ↔ texts = [text] := by
  match texts with
  | [] => simp [gathered]
  | [_] => simp [gathered]
  | _ :: _ :: _ => simp [gathered]

theorem gathered_eq_list_iff {items : List Value} :
    gathered (texts.map .text) = some (.list items)
      ↔ 2 ≤ texts.length ∧ items = texts.map .text := by
  match texts with
  | [] => simp [gathered]
  | [_] => simp [gathered]
  | _ :: _ :: _ => simp [gathered, occurrences, eq_comm]

/-- All the texts can be read off what is gathered from them. -/
theorem occurrences_gathered :
    (gathered (texts.map .text)).elim [] occurrences = texts.map .text := by
  match texts with
  | [] => rfl
  | [_] => rfl
  | _ :: _ :: _ => rfl

/-- Of a repeated parameter the text that came last counts. -/
theorem last_gathered :
    (gathered (texts.map .text)).map last = texts.getLast?.map .text := by
  match texts with
  | [] => rfl
  | [_] => rfl
  | text :: next :: rest =>
    change some (((text :: next :: rest).map Value.text).getLast?.getD .null) = _
    rw [List.getLast?_map, List.getLast?_cons]
    rfl

end Texts

/-! ## One pair -/

section Add

variable (params : Params) (v : Value) {key other : String}

theorem add_eq_put (key : String) :
    params.add key v = params.put key (joined (params.get? key) v) := by
  rw [add]
  cases params.get? key <;> rfl

theorem get?_add_self : (params.add key v).get? key = some (joined (params.get? key) v) := by
  rw [add_eq_put, Entries.get?_put_self]

theorem get?_add_ne (h : other ≠ key) : (params.add key v).get? other = params.get? other := by
  rw [add_eq_put, Entries.get?_put_ne params _ h]

end Add

/-! ## All pairs -/

section Pairs

variable (pairs : List (String × Value))

theorem ofPairs_append (p : String × Value) :
    ofPairs (pairs ++ [p]) = (ofPairs pairs).add p.1 p.2 := by
  rw [ofPairs, List.foldl_append]
  rfl

theorem distinct_ofPairs : Entries.Distinct (ofPairs pairs) := by
  induction pairs using List.reverseRecOn with
  | nil => exact List.nodup_nil
  | append_singleton pairs p ih =>
    rw [ofPairs_append, add_eq_put]
    exact ih.put p.1 _

/-- The keys are those that occur, each at the place where it first came. -/
theorem keys_ofPairs : (ofPairs pairs).map (·.1) = (pairs.map (·.1)).eraseDups := by
  induction pairs using List.reverseRecOn with
  | nil => rfl
  | append_singleton pairs p ih =>
    rw [ofPairs_append, add_eq_put, Entries.keys_put, ih, List.map_append, List.eraseDups_append]
    by_cases hmem : p.1 ∈ pairs.map (·.1)
    · rw [if_pos (List.mem_eraseDups.2 hmem)]
      simp [List.removeAll, hmem]
    · rw [if_neg (mt List.mem_eraseDups.1 hmem)]
      simp [List.removeAll, hmem, List.eraseDups_cons]

/-- At a key stands what its own values gather into: a pair with another key changes nothing. -/
theorem get?_ofPairs (key : String) : (ofPairs pairs).get? key = gathered (sent pairs key) := by
  -- From the end: the last pair is the one that is added to what the others were folded into.
  induction pairs using List.reverseRecOn with
  | nil => rfl
  | append_singleton pairs p ih =>
    rw [ofPairs_append]
    by_cases h : p.1 = key
    · rw [sent_append_of_eq pairs p h, gathered_append, ← ih, ← h, get?_add_self]
    · rw [sent_append_of_ne pairs p h, get?_add_ne _ _ (Ne.symm h), ih]

end Pairs

/-! ## Pairs of a key and a text -/

/-- What pairs of a key and a text have to be folded into. -/
structure Folds (pairs : List (String × String)) (params : Params) : Prop where
  /-- The keys are those that occur, in the order in which they first came. -/
  keys : params.map (·.1) = (pairs.map (·.1)).eraseDups
  /-- A key has a text just if it occurs once, with this text. -/
  single : ∀ key text, params.get? key = some (.text text) ↔ sent pairs key = [text]
  /-- A key has a list just if it occurs repeatedly; the list holds its texts in their order. -/
  repeated : ∀ key items, params.get? key = some (.list items)
    ↔ 2 ≤ (sent pairs key).length ∧ items = (sent pairs key).map .text

section Texts

variable (pairs : List (String × String))

theorem keys_ofTexts : (ofTexts pairs).map (·.1) = (pairs.map (·.1)).eraseDups := by
  rw [ofTexts, keys_ofPairs, List.map_map]
  rfl

theorem get?_ofTexts (key : String) :
    (ofTexts pairs).get? key = gathered ((sent pairs key).map .text) := by
  rw [ofTexts, get?_ofPairs, sent_map]

/-- Pairs are folded key by key, in the order in which the keys first came. A key that came once has
its text, and one that came repeatedly the list of its texts; no text is lost or gets under another
key. -/
theorem ofTexts_folds : Folds pairs (ofTexts pairs) where
  keys := keys_ofTexts pairs
  single key text := by
    rw [get?_ofTexts]
    exact gathered_eq_text_iff _
  repeated key items := by
    rw [get?_ofTexts]
    exact gathered_eq_list_iff _

example : ofTexts [("genre", "Drama"), ("page", "1"), ("genre", "Noir")]
    = [("genre", .list [.text "Drama", .text "Noir"]), ("page", .text "1")] := by
  rfl

/-- Of a repeated key the text that came last is read. -/
theorem last_ofTexts (key : String) :
    ((ofTexts pairs).get? key).map last = (sent pairs key).getLast?.map .text := by
  rw [get?_ofTexts]
  exact last_gathered _

/-- Pairs are folded alike just if their keys first come in the same order and every key has the
same texts in the same order. -/
theorem ofTexts_eq_iff {pairs pairs' : List (String × String)} :
    ofTexts pairs = ofTexts pairs' ↔
      (pairs.map (·.1)).eraseDups = (pairs'.map (·.1)).eraseDups ∧
        ∀ key, sent pairs key = sent pairs' key := by
  constructor
  · intro h
    refine ⟨?_, fun key => ?_⟩
    · rw [← keys_ofTexts, ← keys_ofTexts, h]
    · -- The value of a key shows all its texts, whether it is a text or a list.
      have hget := congrArg (fun params : Params => (params.get? key).elim [] occurrences) h
      simp only [get?_ofTexts, occurrences_gathered] at hget
      exact List.map_injective_iff.2 (fun _ _ => Value.text.inj) hget
  · rintro ⟨hkeys, hsent⟩
    refine Entries.eq_of_get? (distinct_ofPairs _) ?_ fun key => ?_
    · rw [keys_ofTexts, keys_ofTexts, hkeys]
    · rw [get?_ofTexts, get?_ofTexts, hsent]

end Texts

end RecordQuery.Params
