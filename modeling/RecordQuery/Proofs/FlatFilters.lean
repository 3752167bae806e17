import RecordQuery.Proofs.Conditions
import RecordQuery.Proofs.KeptKeys
import RecordQuery.Proofs.Memberships
import RecordQuery.Proofs.Reordering

/-!
# Flat filters in keys and in the filter model

An object of texts for one column can be written with a key for every entry, or into the filter
model. The keys are passed over if the entry `filter` is empty or absent and the type needs an
operand, even if there are operands in other entries; and a bracket in the name of a field cuts its
key elsewhere.

* `Brackets.readParts_of_bracket`: how a text with a bracket is cut into parts.
* `FlatFilter`: such an object, with `inKeys` and `inModel` for its requests.
* `FlatFilter.keys_alike_iff`: what the two requests are read as, and when they agree.
-/

namespace RecordQuery

open GridModel (entry)
open RecordQuery.Tree (IsNode)

/-! ## Keys with brackets in their parts -/

namespace Brackets

/-- A part ends at the first bracket that closes, and no bracket may open in it. -/
theorem readParts_close {part : List Char} (h : ']' ∉ part) (opened rest : List Char) :
    readParts (some opened) (part ++ ']' :: rest) =
      if '[' ∈ part then none else (readParts none rest).map ((opened.reverse ++ part) :: ·) := by
  induction part generalizing opened with
  | nil => simp [readParts]
  | cons c part ih =>
    rw [List.mem_cons, not_or] at h
    rw [List.cons_append, readParts, if_neg (Ne.symm h.1)]
    by_cases hopen : c = '['
    · rw [if_pos hopen, if_pos (List.mem_cons.2 (.inl hopen.symm))]
    · rw [if_neg hopen, ih h.2]
      simp [List.mem_cons, Ne.symm hopen]

/-- A further part has to be opened at once. -/
theorem readParts_append_close (cs rest : List Char) {parts : List (List Char)}
    (h : readParts none (cs ++ ']' :: rest) = some parts) : ∃ more, cs = '[' :: more := by
  cases cs with
  | nil =>
    rw [List.nil_append, readParts, if_neg (by decide)] at h
    · cases h
    · rintro ⟨⟩
  | cons c cs =>
    rw [List.cons_append, readParts] at h
    · split at h
      · rename_i hopen
        exact ⟨cs, by rw [hopen]⟩
      · cases h
    · simp

/-- The beginning of a text up to a bracket that closes, or the whole text. -/
theorem exists_part (cs : List Char) :
    ∃ part more, ']' ∉ part ∧ cs = part ++ more ∧ (more = [] ∨ ∃ more', more = ']' :: more') := by
  by_cases hcs : ']' ∈ cs
  · obtain ⟨part, more, rfl, hpart⟩ := List.eq_append_cons_of_mem hcs
    exact ⟨part, _, hpart, rfl, .inr ⟨more, rfl⟩⟩
  · exact ⟨cs, [], hcs, by simp, .inl rfl⟩

/-- A text with a bracket is cut into two parts at least, the same ones whatever follows it. -/
theorem readParts_of_bracket {cs : List Char} (hcs : '[' ∈ cs ∨ ']' ∈ cs) :
    ∃ a b, ∀ rest parts, readParts (some []) (cs ++ ']' :: rest) = some parts →
      ∃ more tail, cs = a ++ ']' :: '[' :: (b ++ more) ∧ parts = a :: b :: tail := by
  by_cases hclose : ']' ∈ cs
  · obtain ⟨a, after, rfl, ha⟩ := List.eq_append_cons_of_mem hclose
    obtain ⟨b, more, hb, hafter, hmore⟩ := exists_part (after.drop 1)
    refine ⟨a, b, fun rest parts h => ?_⟩
    rw [List.append_assoc, List.cons_append, readParts_close ha] at h
    split at h
    · cases h
    · obtain ⟨tail, htail, rfl⟩ := Option.map_eq_some_iff.1 h
      obtain ⟨after, rfl⟩ := readParts_append_close after rest htail
      rw [List.drop_one, List.tail_cons] at hafter
      subst hafter
      rw [List.cons_append, readParts, if_pos rfl] at htail
      · obtain ⟨rest', hrest'⟩ : ∃ rest', b ++ more ++ ']' :: rest = b ++ ']' :: rest' := by
          rcases hmore with rfl | ⟨more', rfl⟩
          · exact ⟨rest, by simp⟩
          · exact ⟨more' ++ ']' :: rest, by simp⟩
        rw [hrest', readParts_close hb] at htail
        split at htail
        · cases htail
        · obtain ⟨tail', -, rfl⟩ := Option.map_eq_some_iff.1 htail
          exact ⟨more, tail', rfl, rfl⟩
      · simp
  · refine ⟨[], [], fun rest parts h => ?_⟩
    rw [readParts_close hclose, if_pos (hcs.resolve_right hclose)] at h
    cases h

end Brackets

/-! ## Flat filters -/

/-- The entries that an object for a column can have if it is neither a group nor has a list of
values. -/
def flatEntryNames : List String :=
  ["type", "filterType", "filter", "filterTo", "dateFrom", "dateTo"]

structure FlatFilter where
  field : String
  entries : List (String × String)
  names : ∀ e ∈ entries, e.1 ∈ flatEntryNames := by decide
  names_nodup : (entries.map (·.1)).Nodup := by decide

namespace FlatFilter

variable (w : FlatFilter) (models : Handing) (startRow endRow : Value)

def spec : Entries := w.entries.map fun e => (e.1, .text e.2)

def key (name : String) : String :=
  .ofList ("filters".toList ++ '[' :: (w.field.toList ++ ']' :: '[' :: (name.toList ++ [']'])))

/-- A key for every entry. -/
def inKeys : Params :=
  [("startRow", startRow), ("endRow", endRow)] ++
    w.entries.map fun e => (w.key e.1, .text e.2)

def inModel : Params :=
  [("startRow", startRow), ("endRow", endRow),
    ("filterModel", models.hand (.mapping [(w.field, .mapping w.spec)]))]

/-- The filter of the object, unless nothing remains of the name of its field. -/
def drafts : List DraftFilter :=
  let field := fieldName (.text w.field)
  if field = "" then [] else [RowWindow.leafFilter field w.spec]

/-- There is an operand in the entry `filter`, or the type needs none. -/
def IsFinished : Prop :=
  (∃ s, ("filter", s) ∈ w.entries ∧ s ≠ "") ∨
    ∃ t, ("type", t) ∈ w.entries ∧ canonicalOperator (.text t) ∈ ["isNull", "isNotNull"]

/-- The name of the field has no brackets. -/
def IsPlain : Prop := '[' ∉ w.field.toList ∧ ']' ∉ w.field.toList

instance : Decidable w.IsPlain := inferInstanceAs (Decidable (_ ∧ _))

/-! ### The object -/

theorem keys_spec : w.spec.map (·.1) = w.entries.map (·.1) := by
  rw [spec, List.map_map]
  rfl

theorem isNode_spec : ∀ e ∈ w.spec, IsNode e.2 := by
  intro e he
  obtain ⟨e', -, rfl⟩ := List.mem_map.1 he
  exact .text _

theorem readable_spec (room : Nat) : Json.Readable (room + 1) (.mapping w.spec) :=
  ⟨Json.readableEntries_map fun _ _ => trivial, by rw [keys_spec]; exact w.names_nodup⟩

theorem get?_spec {name s : String} :
    w.spec.get? name = some (.text s) ↔ (name, s) ∈ w.entries := by
  rw [Entries.get?_eq_some_iff (by rw [Entries.Distinct, keys_spec]; exact w.names_nodup), spec,
    List.mem_map]
  constructor
  · rintro ⟨⟨name', s'⟩, he, heq⟩
    cases heq
    exact he
  · intro he
    exact ⟨_, he, rfl⟩

theorem entry_of_mem {name s : String} (h : (name, s) ∈ w.entries) :
    entry w.spec name = .text s := by
  rw [entry, w.get?_spec.2 h]
  rfl

/-- Nothing but texts is found in the object. -/
theorem entry_spec (name : String) :
    entry w.spec name = .null ∨ ∃ s, entry w.spec name = .text s ∧ (name, s) ∈ w.entries := by
  unfold entry
  cases hget : w.spec.get? name with
  | none => exact .inl rfl
  | some v =>
    obtain ⟨e, -, he⟩ := List.mem_map.1 (Json.mem_of_get? hget)
    cases he
    exact .inr ⟨_, rfl, w.get?_spec.1 hget⟩

theorem get?_of_not_name {name : String} (h : name ∉ flatEntryNames) : w.spec.get? name = none := by
  refine Entries.get?_of_not_mem fun hmem => h ?_
  rw [keys_spec] at hmem
  obtain ⟨e, he, rfl⟩ := List.mem_map.1 hmem
  exact w.names e he

theorem columnFilters_spec (field : String) :
    RowWindow.columnFilters field (.mapping w.spec) = .ok [RowWindow.leafFilter field w.spec] := by
  have hleaf : RowWindow.condition (.mapping w.spec) = .leaf w.spec := by
    rcases RowWindow.condition_mapping w.spec with ⟨members, hmembers, -⟩ | ⟨-, hleaf⟩
    · rw [w.get?_of_not_name (by decide)] at hmembers
      cases hmembers
    · exact hleaf
  refine RowWindow.columnFilters_leaf field hleaf ?_
  rw [hleaf]
  intro _
  rw [entry, w.get?_of_not_name (by decide)]
  exact ⟨[], rfl⟩

theorem isMissing_filter :
    (entry w.spec "filter").isMissing = true ↔ ¬ ∃ s, ("filter", s) ∈ w.entries ∧ s ≠ "" := by
  constructor
  · rintro hmissing ⟨s, hs, hne⟩
    rw [w.entry_of_mem hs] at hmissing
    exact hne (by simpa [Value.isMissing, Value.isNull, Value.isEmptyText] using hmissing)
  · intro hnone
    rcases w.entry_spec "filter" with hnull | ⟨s, hs, hmem⟩
    · rw [hnull]
      rfl
    · have hempty : s = "" := by
        by_contra hne
        exact hnone ⟨s, hmem, hne⟩
      rw [hs, hempty]
      rfl

theorem canonicalOperator_type :
    canonicalOperator (entry w.spec "type") ∈ ["isNull", "isNotNull"] ↔
      ∃ t, ("type", t) ∈ w.entries ∧ canonicalOperator (.text t) ∈ ["isNull", "isNotNull"] := by
  constructor
  · intro h
    rcases w.entry_spec "type" with hnull | ⟨t, ht, hmem⟩
    · rw [hnull] at h
      exact absurd h (by decide +kernel)
    · rw [ht] at h
      exact ⟨t, hmem, h⟩
  · rintro ⟨t, hmem, ht⟩
    rw [w.entry_of_mem hmem]
    exact ht

theorem isUnfinished_spec : RowWindow.isUnfinished w.spec = true ↔ ¬ w.IsFinished := by
  have hunfinished : RowWindow.isUnfinished w.spec = true ↔
      (entry w.spec "filter").isMissing = true ∧
        canonicalOperator (entry w.spec "type") ∉ ["isNull", "isNotNull"] := by
    simp [RowWindow.isUnfinished, and_assoc]
  rw [hunfinished, isMissing_filter, canonicalOperator_type, IsFinished, not_or]

/-! ### The keys -/

theorem readKey?_key (name : String) :
    Brackets.readKey? (w.key name) =
      (Brackets.readParts (some [])
        (w.field.toList ++ ']' :: '[' :: (name.toList ++ [']']))).map
        fun parts => ("filters", parts.map .ofList) := by
  have hroot : "filters".toList = ['f', 'i', 'l', 't', 'e', 'r', 's'] := by decide
  exact Brackets.readKey?_of_root hroot (by decide) (by decide) _

theorem ne_bracket_of_name {name : String} (h : name ∈ flatEntryNames) :
    ∀ c ∈ name.toList, c ≠ '[' ∧ c ≠ ']' := by
  have hall : (flatEntryNames.all fun name =>
      name.toList.all fun c => c != '[' && c != ']') = true := by decide
  intro c hc
  simpa using List.all_eq_true.1 (List.all_eq_true.1 hall name h) c hc

theorem readKey?_key_of_plain (h : w.IsPlain) {name : String} (hname : name ∈ flatEntryNames) :
    Brackets.readKey? (w.key name) = some ("filters", [w.field, name]) := by
  have hfield : ∀ c ∈ w.field.toList, c ≠ '[' ∧ c ≠ ']' := fun c hc =>
    ⟨fun hopen => h.1 (hopen ▸ hc), fun hclose => h.2 (hclose ▸ hc)⟩
  rw [readKey?_key, Brackets.readParts_pair hfield (ne_bracket_of_name hname)]
  simp

theorem toList_key (name : String) :
    (w.key name).toList = "filters".toList ++
      '[' :: (w.field.toList ++ ']' :: '[' :: (name.toList ++ [']'])) :=
  String.toList_ofList

/-- Names without brackets are none of the keys of entries. -/
theorem get?_inKeys {name : String} (h : '[' ∉ name.toList) :
    (w.inKeys startRow endRow).get? name =
      Entries.get? [("startRow", startRow), ("endRow", endRow)] name := by
  have hnone : Entries.get? (w.entries.map fun e => (w.key e.1, Value.text e.2)) name = none := by
    refine Entries.get?_of_not_mem fun hmem => h ?_
    simp only [List.map_map, List.mem_map, Function.comp_apply] at hmem
    obtain ⟨e, -, rfl⟩ := hmem
    rw [toList_key]
    exact List.mem_append_right _ List.mem_cons_self
  rw [inKeys, Entries.get?_append, hnone, Option.or_none]

/-- The tree of a root is what the entries grow into. -/
theorem tree_inKeys {root : String} (h : '[' ∉ root.toList)
    (hroot : Entries.get? [("startRow", startRow), ("endRow", endRow)] root = none) :
    (w.inKeys startRow endRow).tree root =
      (w.entries.map fun e => (w.key e.1, Value.text e.2)).foldl (Params.grown root) [] := by
  have hbelow : Tree.below (w.inKeys startRow endRow) root = [] := by
    rw [Tree.below, w.get?_inKeys startRow endRow h, hroot]
    rfl
  have hplain : ∀ e ∈ [("startRow", startRow), ("endRow", endRow)],
      Brackets.readKey? e.1 = none := by
    have hkeys : ∀ key ∈ ["startRow", "endRow"], Brackets.readKey? key = none := by decide +kernel
    intro e he
    exact hkeys e.1 (List.mem_map_of_mem (f := (·.1)) he)
  rw [Params.tree_eq, hbelow, inKeys, List.foldl_append, Params.foldl_grown_plain hplain]

/-- No key of an entry belongs to another root. -/
theorem grown_of_ne {root : String} (h : "filters" ≠ root) (tree : Entries) (name : String)
    (v : Value) : Params.grown root tree (w.key name, v) = tree := by
  rw [Params.grown, readKey?_key]
  cases Brackets.readParts (some []) (w.field.toList ++ ']' :: '[' :: (name.toList ++ [']'])) with
  | none => rfl
  | some parts => exact if_neg h

theorem tree_sort : (w.inKeys startRow endRow).tree "sort" = [] := by
  rw [w.tree_inKeys startRow endRow (by decide) rfl, List.foldl_map]
  induction w.entries with
  | nil => rfl
  | cons e entries ih =>
    rw [List.foldl_cons, w.grown_of_ne (by decide)]
    exact ih

/-- The filters of the keys are all that the request has. -/
theorem read_inKeys {found : List DraftFilter}
    (h : RowWindow.flatFilters ((w.inKeys startRow endRow).tree "filters") = .ok found) :
    ∃ draft, DraftQuery.read (w.inKeys startRow endRow) = .ok draft ∧ draft.filters = found := by
  have hentries : GridModel.filterEntries (w.inKeys startRow endRow) = .ok [] := by
    rw [GridModel.filterEntries, GridModel.load, w.get?_inKeys startRow endRow (by decide)]
    rfl
  refine RowWindow.read_of_filters rfl ?_ ?_ (w.tree_sort startRow endRow)
  · rw [RowWindow.filters, hentries]
    exact bind_eq_ok.2 ⟨_, rfl, bind_eq_ok.2 ⟨[], rfl, bind_eq_ok.2 ⟨_, h, rfl⟩⟩⟩
  · rw [w.get?_inKeys startRow endRow (by decide)]
    rfl

/-! ### Fields without brackets -/

/-- The tree of an object, which is not there before its first entry. -/
def treeOf (object : Entries) : Entries :=
  if object = [] then [] else [(w.field, .mapping object)]

theorem grown_of_plain (h : w.IsPlain) {name : String} (hname : name ∈ flatEntryNames)
    {object : Entries} (hnew : name ∉ object.map (·.1)) (v : Value) :
    Params.grown "filters" (w.treeOf object) (w.key name, v) =
      w.treeOf (object ++ [(name, v)]) := by
  rw [Params.grown, w.readKey?_key_of_plain h hname]
  simp only [if_true, Tree.insertAt]
  have hbelow : Tree.below (w.treeOf object) w.field = object := by
    unfold treeOf
    split
    · rename_i hnil
      rw [hnil]
      rfl
    · simp [Tree.below, Entries.get?, Value.entries?]
  rw [hbelow, Json.put_of_not_mem hnew]
  unfold treeOf
  rw [if_neg (List.append_ne_nil_of_right_ne_nil _ (List.cons_ne_nil _ _))]
  split
  · rfl
  · simp [Entries.put]

theorem foldl_grown_of_plain (h : w.IsPlain) {entries : List (String × String)}
    (hnames : ∀ e ∈ entries, e.1 ∈ flatEntryNames) {object : Entries}
    (hnodup : (object.map (·.1) ++ entries.map (·.1)).Nodup) :
    (entries.map fun e => (w.key e.1, Value.text e.2)).foldl (Params.grown "filters")
        (w.treeOf object) =
      w.treeOf (object ++ entries.map fun e => (e.1, .text e.2)) := by
  induction entries generalizing object with
  | nil => simp
  | cons e entries ih =>
    have hnew : e.1 ∉ object.map (·.1) := fun hmem =>
      List.disjoint_of_nodup_append hnodup hmem List.mem_cons_self
    rw [List.map_cons, List.foldl_cons, w.grown_of_plain h (hnames e List.mem_cons_self) hnew,
      ih fun e' he' => hnames e' (List.mem_cons_of_mem e he')]
    · simp
    · simpa using hnodup

theorem tree_of_plain (h : w.IsPlain) :
    (w.inKeys startRow endRow).tree "filters" = w.treeOf w.spec := by
  have hnodup : (([] : Entries).map (·.1) ++ w.entries.map (·.1)).Nodup := w.names_nodup
  rw [w.tree_inKeys startRow endRow (by decide) rfl]
  exact w.foldl_grown_of_plain h w.names hnodup

theorem flatFilters_of_plain :
    RowWindow.flatFilters (w.treeOf w.spec) =
      .ok (if RowWindow.isUnfinished w.spec = true then [] else w.drafts) := by
  unfold treeOf
  split
  · rename_i hnil
    rw [hnil, if_pos (by decide +kernel)]
    rfl
  · rw [RowWindow.flatFilters, RowWindow.lastEntries_eq_self w.isNode_spec, drafts]
    simp only [w.columnFilters_spec]
    by_cases hfield : fieldName (.text w.field) = ""
    · simp only [hfield, true_or, if_true, ite_self]
      rfl
    · simp only [hfield, false_or, if_false]
      split <;> rfl

/-! ### Fields with brackets -/

/-- The text is cut into two parts at least, and begins with these. -/
def BeginsWith (cs a b : List Char) : Prop := ∃ more, cs = a ++ ']' :: '[' :: (b ++ more)

/-- If there is anything in the tree, it has one place, which comes of the text. -/
def OnePlace (cs a b : List Char) (tree : Entries) : Prop :=
  tree = [] ∨ (BeginsWith cs a b ∧
    ∃ v, IsNode v ∧ tree = [(.ofList a, .mapping [(.ofList b, v)])])

/-- With a bracket in the field, all keys that are read agree in their first two parts, and these
stand in the field. -/
theorem readKey?_key_of_bracket (h : ¬ w.IsPlain) :
    ∃ a b, ∀ name found, Brackets.readKey? (w.key name) = some found →
      BeginsWith w.field.toList a b ∧
        ∃ tail, found = ("filters", .ofList a :: .ofList b :: tail) := by
  have hbracket : '[' ∈ w.field.toList ∨ ']' ∈ w.field.toList := by
    rw [IsPlain, not_and_or, not_not, not_not] at h
    exact h
  obtain ⟨a, b, hcut⟩ := Brackets.readParts_of_bracket hbracket
  refine ⟨a, b, fun name found hfound => ?_⟩
  rw [readKey?_key] at hfound
  obtain ⟨parts, hparts, rfl⟩ := Option.map_eq_some_iff.1 hfound
  obtain ⟨more, tail, hfield, rfl⟩ := hcut _ _ hparts
  exact ⟨⟨more, hfield⟩, tail.map .ofList, rfl⟩

theorem OnePlace.insertAt {cs a b : List Char} {tree : Entries} (h : OnePlace cs a b tree)
    (hcs : BeginsWith cs a b) (tail : List String) (s : String) :
    OnePlace cs a b (Tree.insertAt tree (.ofList a :: .ofList b :: tail) (.text s)) := by
  have hinner : ∀ object : Entries, object = [] ∨ (∃ v, object = [(.ofList b, v)]) →
      ∃ v, IsNode v ∧
        Tree.insertAt object (.ofList b :: tail) (.text s) = [(.ofList b, v)] := by
    intro object hobject
    have hput : ∀ v, object.put (.ofList b) v = [(.ofList b, v)] := by
      rcases hobject with rfl | ⟨u, rfl⟩ <;> simp [Entries.put]
    cases tail with
    | nil => exact ⟨_, .text s, hput _⟩
    | cons next tail =>
      rw [Tree.insertAt_cons _ _ _ (List.cons_ne_nil _ _), hput]
      exact ⟨_, .mapping _, rfl⟩
  rw [Tree.insertAt_cons _ _ _ (List.cons_ne_nil _ _)]
  refine .inr ⟨hcs, ?_⟩
  rcases h with rfl | ⟨-, u, -, rfl⟩
  · obtain ⟨v, hv, hinsert⟩ := hinner [] (.inl rfl)
    have hbelow : Tree.below [] (.ofList a) = [] := rfl
    exact ⟨v, hv, by rw [hbelow, hinsert]; rfl⟩
  · obtain ⟨v, hv, hinsert⟩ := hinner [(.ofList b, u)] (.inr ⟨u, rfl⟩)
    have hbelow : Tree.below [(.ofList a, .mapping [(.ofList b, u)])] (.ofList a) =
        [(.ofList b, u)] := by
      simp [Tree.below, Entries.get?, Value.entries?]
    exact ⟨v, hv, by rw [hbelow, hinsert]; simp [Entries.put]⟩

/-- With a bracket in the field, the first two parts of all keys stand in the field. -/
theorem tree_of_bracket (h : ¬ w.IsPlain) :
    ∃ a b, OnePlace w.field.toList a b ((w.inKeys startRow endRow).tree "filters") := by
  obtain ⟨a, b, hkey⟩ := w.readKey?_key_of_bracket h
  refine ⟨a, b, ?_⟩
  rw [w.tree_inKeys startRow endRow (by decide) rfl]
  have hplace : OnePlace w.field.toList a b [] := .inl rfl
  generalize ([] : Entries) = tree at hplace ⊢
  induction w.entries generalizing tree with
  | nil => exact hplace
  | cons e entries ih =>
    rw [List.map_cons, List.foldl_cons]
    refine ih _ ?_
    rw [Params.grown]
    cases hfound : Brackets.readKey? (w.key e.1) with
    | none => exact hplace
    | some found =>
      obtain ⟨hfield, tail, rfl⟩ := hkey e.1 found hfound
      simp only [if_true]
      exact hplace.insertAt hfield tail e.2

/-- The name of a field keeps its characters in their order. -/
theorem fieldName_eq_filter (s : String) :
    fieldName (.text s) = .ofList (s.toList.filter isFieldChar) := by
  have hdrop : ∀ cs : List Char,
      (cs.dropWhile Text.isBlank).filter isFieldChar = cs.filter isFieldChar := by
    intro cs
    induction cs with
    | nil => rfl
    | cons c cs ih =>
      by_cases hblank : Text.isBlank c = true
      · have hchar : ¬ isFieldChar c = true := fun hchar => by
          rw [isBlank_of_isFieldChar hchar] at hblank
          cases hblank
        rw [List.dropWhile_cons_of_pos hblank, ih, List.filter_cons_of_neg hchar]
      · rw [List.dropWhile_cons_of_neg hblank]
  rw [fieldName_of_text, Text.trimChars, Text.stripChars, List.filter_reverse, hdrop,
    ← List.filter_reverse, List.reverse_reverse, hdrop]

theorem isUnfinished_single {b : List Char} (h : b.filter isFieldChar = []) (v : Value) :
    RowWindow.isUnfinished [(.ofList b, v)] = true := by
  have hnone : ∀ name ∈ ["filter", "type"], entry [(.ofList b, v)] name = .null := by
    intro name hname
    have hne : String.ofList b ≠ name := by
      rintro rfl
      have hchars : ∀ name ∈ ["filter", "type"], name.toList.filter isFieldChar ≠ [] := by decide
      exact hchars _ hname (by rw [String.toList_ofList]; exact h)
    simp [entry, Entries.get?, hne]
  rw [RowWindow.isUnfinished, hnone "filter" (by simp), hnone "type" (by simp)]
  decide +kernel

theorem drafts_eq_nil : w.drafts = [] ↔ fieldName (.text w.field) = "" := by
  simp [drafts]

/-- With a bracket in the field, the keys have no filter or one with a shorter name. -/
theorem flatFilters_of_bracket (h : ¬ w.IsPlain) :
    ∃ found, RowWindow.flatFilters ((w.inKeys startRow endRow).tree "filters") = .ok found ∧
      (found = w.drafts ↔ fieldName (.text w.field) = "") := by
  obtain ⟨a, b, hplace⟩ := w.tree_of_bracket startRow endRow h
  rcases hplace with hnil | ⟨⟨more, hfield⟩, v, hv, htree⟩
  · rw [hnil]
    exact ⟨[], rfl, by rw [eq_comm, drafts_eq_nil]⟩
  · have hnodes : ∀ e ∈ [(String.ofList b, v)], IsNode e.2 := by
      rw [List.forall_mem_singleton]
      exact hv
    have hname : fieldName (.text w.field) =
        .ofList (a.filter isFieldChar ++ (b ++ more).filter isFieldChar) := by
      have hmarks : isFieldChar ']' = false ∧ isFieldChar '[' = false := by decide
      rw [fieldName_eq_filter, hfield, List.filter_append,
        List.filter_cons_of_neg (by simp [hmarks]), List.filter_cons_of_neg (by simp [hmarks])]
    have hfirst : fieldName (.text (.ofList a)) = .ofList (a.filter isFieldChar) := by
      rw [fieldName_eq_filter, String.toList_ofList]
    rw [htree, RowWindow.flatFilters, RowWindow.lastEntries_eq_self hnodes]
    obtain ⟨filter, hfilter, hfilterField⟩ :=
      RowWindow.columnFilters_ok hnodes (fieldName (.text (.ofList a)))
    simp only [hfilter]
    split
    · exact ⟨[], rfl, by rw [eq_comm, drafts_eq_nil]⟩
    · rename_i hkept
      rw [not_or] at hkept
      refine ⟨[filter], rfl, fun heq => ?_, fun hempty => ?_⟩
      · -- Were the names the same, nothing of the second part would remain in a name, and no entry
        -- that counts could stand there.
        by_contra hne
        rw [drafts] at heq
        simp only [if_neg hne, List.cons.injEq, and_true] at heq
        have hsame : fieldName (.text w.field) = fieldName (.text (.ofList a)) := by
          rw [← hfilterField, heq]
          unfold RowWindow.leafFilter
          split <;> rfl
        rw [hname, hfirst] at hsame
        have hrest := List.append_right_eq_self.1 (String.ofList_injective hsame)
        rw [List.filter_append, List.append_eq_nil_iff] at hrest
        exact hkept.2 (isUnfinished_single hrest.1 v)
      · rw [hname] at hempty
        have hchars := String.ofList_eq_empty_iff.1 hempty
        rw [List.append_eq_nil_iff] at hchars
        exact absurd (by rw [hfirst, hchars.1]) hkept.1

/-! ### Both requests -/

theorem read_inModel :
    ∃ draft, DraftQuery.read (w.inModel models startRow endRow) = .ok draft ∧
      draft.filters = w.drafts :=
  RowWindow.read_columnRequest (w.readable_spec _) (w.columnFilters_spec _) models startRow endRow

/-- Both requests are read. The filter model always gives the filter of the object. The keys give
the same exactly if the object is complete by its `filter` or its type and there is no bracket in
the name of its field; without the former they give nothing. -/
theorem keys_alike_iff (w : FlatFilter) (models : Handing) (startRow endRow : Value) :
    ∃ keyed modelled, DraftQuery.read (w.inKeys startRow endRow) = .ok keyed ∧
      DraftQuery.read (w.inModel models startRow endRow) = .ok modelled ∧
      modelled.filters = w.drafts ∧
      (keyed.filters = modelled.filters ↔
        fieldName (.text w.field) = "" ∨ (w.IsPlain ∧ w.IsFinished)) ∧
      (w.IsPlain → ¬ w.IsFinished → keyed.filters = []) := by
  obtain ⟨modelled, hmodelled, hdrafts⟩ := w.read_inModel models startRow endRow
  by_cases hplain : w.IsPlain
  · obtain ⟨keyed, hkeyed, hfilters⟩ := w.read_inKeys startRow endRow
      (by rw [w.tree_of_plain startRow endRow hplain]; exact w.flatFilters_of_plain)
    refine ⟨keyed, modelled, hkeyed, hmodelled, hdrafts, ?_, fun _ hunfinished => ?_⟩
    · rw [hfilters, hdrafts]
      by_cases hfinished : w.IsFinished
      · rw [if_neg fun h => w.isUnfinished_spec.1 h hfinished]
        exact iff_of_true rfl (.inr ⟨hplain, hfinished⟩)
      · rw [if_pos (w.isUnfinished_spec.2 hfinished), eq_comm, drafts_eq_nil]
        exact ⟨.inl, fun h => h.resolve_right fun h => hfinished h.2⟩
    · rw [hfilters, if_pos (w.isUnfinished_spec.2 hunfinished)]
  · obtain ⟨found, hfound, hiff⟩ := w.flatFilters_of_bracket startRow endRow hplain
    obtain ⟨keyed, hkeyed, hfilters⟩ := w.read_inKeys startRow endRow hfound
    refine ⟨keyed, modelled, hkeyed, hmodelled, hdrafts, ?_, fun h => absurd h hplain⟩
    rw [hfilters, hdrafts, hiff]
    exact ⟨.inl, fun h => h.resolve_right fun h => hplain h.1⟩

/-- A day in an entry of its own. -/
def releasedOn : FlatFilter where
  field := "release_date"
  entries := [("type", "equals"), ("dateFrom", "2024-01-01")]

theorem releasedOn_dropped :
    ∃ keyed modelled,
      DraftQuery.read (releasedOn.inKeys (.text "0") (.text "20")) = .ok keyed ∧
      DraftQuery.read (releasedOn.inModel .json (.text "0") (.text "20")) = .ok modelled ∧
      keyed.filters = [] ∧
      modelled.filters = [⟨"release_date", "equals", .text "2024-01-01"⟩] := by
  have hplain : releasedOn.IsPlain := by decide
  have hunfinished : ¬ releasedOn.IsFinished := by
    rw [← isUnfinished_spec]
    decide +kernel
  obtain ⟨keyed, modelled, hkeyed, hmodelled, hdrafts, -, hdropped⟩ :=
    releasedOn.keys_alike_iff .json (.text "0") (.text "20")
  exact ⟨keyed, modelled, hkeyed, hmodelled, hdropped hplain hunfinished,
    hdrafts.trans (by with_unfolding_all rfl)⟩

end FlatFilter

end RecordQuery
