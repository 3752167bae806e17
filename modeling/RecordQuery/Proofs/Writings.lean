import RecordQuery.Proofs.Continuation
import RecordQuery.Proofs.JsonText
import RecordQuery.Proofs.Tokens

/-!
# Queries as clients write them

A client has filters, an order, a term to search for and a wish to see deleted records. It can write
them in every grammar; a simple request takes a key for every filter.

* `ClientQuery` is such a query, with `simple`, `dataTable` and `rowWindow` for its writings.
* `ClientQuery.simple_filters`, `simple_sort`: what a simple request is read as.
-/

namespace RecordQuery

open RecordQuery.Text

/-! ## Joined texts -/

namespace Text

theorem splitOn_of_not_mem {sep : Char} {cs : List Char} (h : sep ∉ cs) :
    splitOn sep cs = [cs] := by
  induction cs with
  | nil => rfl
  | cons c cs ih =>
    simp only [List.mem_cons, not_or] at h
    rw [splitOn, if_neg (Ne.symm h.1), ih h.2]

theorem splitOn_append {sep : Char} {cs : List Char} (h : sep ∉ cs) (rest : List Char) :
    splitOn sep (cs ++ sep :: rest) = cs :: splitOn sep rest := by
  induction cs with
  | nil => simp [splitOn]
  | cons c cs ih =>
    simp only [List.mem_cons, not_or] at h
    rw [List.cons_append, splitOn, if_neg (Ne.symm h.1), ih h.2]

/-- Pieces without the separator are found again in the text that joins them. -/
theorem splitOn_joinWith {sep : Char} {pieces : List (List Char)} (hne : pieces ≠ [])
    (h : ∀ piece ∈ pieces, sep ∉ piece) : splitOn sep (joinWith sep pieces) = pieces := by
  induction pieces with
  | nil => exact absurd rfl hne
  | cons piece rest ih =>
    have hpiece := h piece List.mem_cons_self
    cases rest with
    | nil => exact splitOn_of_not_mem hpiece
    | cons next rest =>
      rw [joinWith, splitOn_append hpiece,
        ih (by simp) fun p hp => h p (List.mem_cons_of_mem _ hp)]
      simp

theorem joinWith_ne_nil {sep : Char} {pieces : List (List Char)} (hne : pieces ≠ [])
    (h : ∀ piece ∈ pieces, piece ≠ []) : joinWith sep pieces ≠ [] := by
  cases pieces with
  | nil => exact absurd rfl hne
  | cons piece rest =>
    have hpiece := h piece List.mem_cons_self
    cases rest with
    | nil => exact hpiece
    | cons next rest => simp [joinWith]

end Text

/-! ## Queries of clients -/

/-- The number of operands that a client writes for an operator. -/
def Operator.Takes (op : Operator) (count : Nat) : Prop :=
  if op.isValueless then count ≤ 1
  else if op = .between then count = 2
  else if op.isListed then 1 ≤ count
  else count = 1

instance (op : Operator) (count : Nat) : Decidable (op.Takes count) := by
  unfold Operator.Takes
  infer_instance

/-- A text that may stand between commas. -/
def IsPart (s : String) : Prop := s ≠ "" ∧ ',' ∉ s.toList ∧ trim s = s

instance (s : String) : Decidable (IsPart s) := inferInstanceAs (Decidable (_ ∧ _))

structure ClientFilter where
  field : String
  operator : Operator
  operands : List String
  field_ne : field ≠ "" := by decide
  field_plain : ∀ c ∈ field.toList, isFieldChar c = true := by
    exact List.all_eq_true.1 (by decide +kernel)
  takes : operator.Takes operands.length := by decide
  operands_ne : ∀ s ∈ operands, s ≠ "" := by decide
  operands_plain : isMultiValued operator.name = true → ∀ s ∈ operands, IsPart s := by
    decide +kernel

structure ClientSort where
  field : String
  direction : Direction
  field_plain : ',' ∉ field.toList ∧ ':' ∉ field.toList := by decide

structure ClientQuery where
  filters : List ClientFilter := []
  sort : List ClientSort := []
  search : String := ""
  includeDeleted : String := ""
  fields_nodup : (filters.map (·.field)).Nodup := by decide

/-- How several operands are written: as one text with commas, or as a list. -/
inductive Spelling where
  | joined
  | listed
deriving DecidableEq

def Spelling.spell : Spelling → List String → Value
  | joined, parts => .text (.ofList (joinWith ',' (parts.map String.toList)))
  | listed, parts => .list (parts.map .text)

/-- How a model of a grid is handed over: as it is, as the value of a key that may be repeated, or
as JSON. -/
inductive Handing where
  | bare
  | repeated
  | json
deriving DecidableEq

def Handing.hand : Handing → Value → Value
  | bare, model => model
  | repeated, model => .list [model]
  | json, model => .text (Json.write model)

namespace ClientFilter

variable (w : ClientFilter) (spelling : Spelling)

/-- The operands in one value; no operand is the empty text. -/
def value : Value :=
  if isMultiValued w.operator.name then spelling.spell w.operands
  else .text (w.operands.headD "")

def bracketKey : String :=
  .ofList ("filter".toList ++
    '[' :: (w.field.toList ++ ']' :: '[' :: (w.operator.name.toList ++ [']'])))

def item : Value :=
  .mapping ([("field", .text w.field), ("operator", .text w.operator.name)] ++
    if w.operands = [] then [] else [("value", w.value spelling)])

/-- The object of a column; the two operands of a range have entries of their own. -/
def column : Value :=
  .mapping (("type", .text w.operator.name) ::
    match w.operator, w.operands with
    | .between, [low, high] => [("filter", .text low), ("filterTo", .text high)]
    | _, [] => []
    | _, _ => [("filter", w.value spelling)])

/-- The draft that all writings of the filter are to give. -/
def draft : DraftFilter :=
  { field := w.field
    operator := w.operator.name
    value := if isMultiValued w.operator.name then .list (w.operands.map .text)
      else .text (w.operands.headD "") }

end ClientFilter

namespace ClientSort

variable (s : ClientSort)

def part : List Char := s.field.toList ++ ':' :: s.direction.name.toList

def entry (fieldKey : String) : Value :=
  .mapping [(fieldKey, .text s.field), ("sort", .text s.direction.name)]

def drafts : List DraftSort :=
  let field := fieldName (.text s.field)
  if field = "" then [] else [{ field, direction := .text s.direction.name }]

end ClientSort

namespace ClientQuery

variable (q : ClientQuery) (spelling : Spelling) (models orders : Handing)

/-- What is written in the same way in every grammar. -/
def shared : Params :=
  [("search", .text q.search), ("includeDeleted", .text q.includeDeleted)]

def simple (page pageSize : Value) : Params :=
  [("page", page), ("pageSize", pageSize),
    ("sort", .text (.ofList (joinWith ',' (q.sort.map (·.part)))))] ++ q.shared ++
    q.filters.map fun w => (w.bracketKey, w.value spelling)

def dataTable (page pageSize : Value) : Params :=
  [("page", page), ("pageSize", pageSize),
    ("filterModel", models.hand (.mapping [("items", .list (q.filters.map (·.item spelling)))])),
    ("sortModel", orders.hand (.list (q.sort.map (·.entry "field"))))] ++ q.shared

def rowWindow (startRow endRow : Value) : Params :=
  [("startRow", startRow), ("endRow", endRow),
    ("filterModel", models.hand (.mapping
      (q.filters.map fun w => (w.field, w.column spelling)))),
    ("sortModel", orders.hand (.list (q.sort.map (·.entry "colId"))))] ++ q.shared

end ClientQuery

/-! ## Operators, fields and operands -/

theorem canonicalOperator_name (op : Operator) : canonicalOperator (.text op.name) = op.name := by
  cases op <;> decide +kernel

theorem isBlank_of_isFieldChar {c : Char} (h : isFieldChar c = true) : isBlank c = false := by
  refine isBlank_of_plain ?_
  change (((decide (65 ≤ c.val ∧ c.val ≤ 90) || (97 ≤ c.val && c.val ≤ 122)) ||
    (48 ≤ c.val && c.val ≤ 57)) || c == '_' || c == '.') = true at h
  simp only [Bool.or_eq_true, Bool.and_eq_true, decide_eq_true_eq, beq_iff_eq,
    UInt32.le_iff_toNat_le] at h
  change 0x21 ≤ c.val.toNat ∧ c.val.toNat < 0x80
  rcases h with ((((h | h) | h) | rfl) | rfl)
  · exact ⟨Nat.le_trans (by decide) h.1, Nat.lt_of_le_of_lt h.2 (by decide)⟩
  · exact ⟨Nat.le_trans (by decide) h.1, Nat.lt_of_le_of_lt h.2 (by decide)⟩
  · exact ⟨Nat.le_trans (by decide) h.1, Nat.lt_of_le_of_lt h.2 (by decide)⟩
  · decide
  · decide

theorem fieldName_of_text (s : String) :
    fieldName (.text s) = .ofList ((trimChars s.toList).filter isFieldChar) := by
  by_cases hs : s = ""
  · subst hs
    rfl
  · have htruthy : (Value.text s).isTruthy = true := by simpa [Value.isTruthy] using hs
    rw [fieldName, Value.trimmedOrEmpty, if_pos htruthy]
    rfl

theorem fieldName_eq_self {s : String} (h : ∀ c ∈ s.toList, isFieldChar c = true) :
    fieldName (.text s) = s := by
  have htrim : trimChars s.toList = s.toList :=
    stripChars_of_forall fun c hc => isBlank_of_isFieldChar (h c hc)
  rw [fieldName_of_text, htrim, List.filter_eq_self.2 h, String.ofList_toList]

/-- An absent name may be looked for elsewhere in vain. -/
theorem fieldName_orElse {s : String} {other : Value} (h : s = "" → fieldName other = "") :
    fieldName (Value.orElse (.text s) other) = fieldName (.text s) := by
  by_cases hs : s = ""
  · subst hs
    exact h rfl
  · rw [Value.orElse, if_pos (by simpa [Value.isTruthy] using hs)]

theorem commaParts_of_isPart {s : String} (h : IsPart s) : Params.commaParts s = [.text s] := by
  obtain ⟨hne, hcomma, htrim⟩ := h
  have hchars : trimChars s.toList = s.toList := by rw [← toList_trim, htrim]
  have hnil : s.toList.isEmpty = false := by
    rw [List.isEmpty_eq_false_iff]
    exact fun h => hne (String.toList_eq_nil_iff.1 h)
  simp [Params.commaParts, splitOn_of_not_mem hcomma, hchars, hnil]

theorem splitCommas_spell {parts : List String} (h : ∀ s ∈ parts, IsPart s) (spelling : Spelling) :
    Params.splitCommas (spelling.spell parts) = parts.map .text := by
  cases spelling with
  | listed =>
    rw [Spelling.spell, Params.splitCommas]
    induction parts with
    | nil => rfl
    | cons s parts ih =>
      rw [List.map_cons, Params.splitAllCommas, Params.splitCommas,
        commaParts_of_isPart (h s List.mem_cons_self),
        ih fun t ht => h t (List.mem_cons_of_mem _ ht)]
      rfl
  | joined =>
    rw [Spelling.spell, Params.splitCommas, Params.commaParts, String.toList_ofList]
    cases parts with
    | nil => rfl
    | cons s parts =>
      have hcomma : ∀ piece ∈ (s :: parts).map String.toList, ',' ∉ piece := by
        intro piece hpiece
        obtain ⟨t, ht, rfl⟩ := List.mem_map.1 hpiece
        exact (h t ht).2.1
      have htrim : ∀ t ∈ s :: parts, trimChars t.toList = t.toList := by
        intro t ht
        rw [← toList_trim, (h t ht).2.2]
      have hne : ∀ t ∈ s :: parts, t.toList.isEmpty = false := by
        intro t ht
        rw [List.isEmpty_eq_false_iff]
        exact fun hnil => (h t ht).1 (String.toList_eq_nil_iff.1 hnil)
      rw [splitOn_joinWith (by simp) hcomma, List.map_map, List.filter_eq_self.2]
      · rw [List.map_map]
        refine List.map_congr_left fun t ht => ?_
        simp [htrim t ht]
      · intro piece hpiece
        obtain ⟨t, ht, rfl⟩ := List.mem_map.1 hpiece
        simp [htrim t ht, hne t ht]

/-! ## Simple requests -/

namespace Brackets

theorem readParts_append {part : List Char} (h : ∀ c ∈ part, c ≠ '[' ∧ c ≠ ']')
    (rest opened : List Char) :
    readParts (some opened) (part ++ ']' :: rest) =
      (readParts none rest).map ((opened.reverse ++ part) :: ·) := by
  induction part generalizing opened with
  | nil => simp [readParts]
  | cons c part ih =>
    obtain ⟨hopen, hclose⟩ := h c List.mem_cons_self
    rw [List.cons_append, readParts, if_neg hclose, if_neg hopen,
      ih fun d hd => h d (List.mem_cons_of_mem _ hd)]
    simp

theorem readParts_pair {a b : List Char} (ha : ∀ c ∈ a, c ≠ '[' ∧ c ≠ ']')
    (hb : ∀ c ∈ b, c ≠ '[' ∧ c ≠ ']') :
    readParts (some []) (a ++ ']' :: '[' :: (b ++ [']'])) = some [a, b] := by
  rw [readParts_append ha, readParts, if_pos rfl, readParts_append hb]
  · simp [readParts]
  · simp

theorem readParts_some_ne_nil {opened cs : List Char} {parts : List (List Char)}
    (h : readParts (some opened) cs = some parts) : parts ≠ [] := by
  induction cs generalizing opened with
  | nil => cases h
  | cons c cs ih =>
    rw [readParts] at h
    split at h
    · obtain ⟨rest, -, rfl⟩ := Option.map_eq_some_iff.1 h
      exact List.cons_ne_nil _ _
    · split at h
      · cases h
      · exact ih h

/-- Behind a name, an open part begins the path. -/
theorem readKey?_of_root {root : String} {c : Char} {cs : List Char} (hroot : root.toList = c :: cs)
    (hstart : isNameStart c = true) (hname : root.toList.all isNameChar = true)
    (rest : List Char) :
    readKey? (.ofList (root.toList ++ '[' :: rest)) =
      (readParts (some []) rest).map fun parts => (root, parts.map .ofList) := by
  rw [List.all_eq_true] at hname
  have hopened : readParts none ('[' :: rest) = readParts (some []) rest := by
    rw [readParts, if_pos rfl]
    simp
  rw [readKey?, String.toList_ofList, List.takeWhile_append_of_pos hname,
    List.takeWhile_cons_of_neg (by decide), List.dropWhile_append_of_pos hname,
    List.dropWhile_cons_of_neg (by decide), List.append_nil, hopened]
  cases hparts : readParts (some []) rest with
  | none => simp [hroot]
  | some parts =>
    obtain ⟨part, parts, rfl⟩ := List.exists_cons_of_ne_nil (readParts_some_ne_nil hparts)
    simp only [hroot, Option.map_some]
    rw [if_pos hstart, ← hroot, String.ofList_toList]

end Brackets

namespace ClientFilter

variable (w : ClientFilter) (spelling : Spelling)

theorem toList_bracketKey :
    w.bracketKey.toList = "filter".toList ++
      '[' :: (w.field.toList ++ ']' :: '[' :: (w.operator.name.toList ++ [']'])) :=
  String.toList_ofList

theorem ne_bracket_of_isFieldChar {c : Char} (h : isFieldChar c = true) : c ≠ '[' ∧ c ≠ ']' := by
  constructor <;> rintro rfl <;> exact absurd h (by decide)

theorem ne_bracket_of_mem_name (op : Operator) : ∀ c ∈ op.name.toList, c ≠ '[' ∧ c ≠ ']' := by
  have hall : op.name.toList.all (fun c => c != '[' && c != ']') = true := by
    cases op <;> decide
  intro c hc
  simpa using List.all_eq_true.1 hall c hc

theorem readKey?_bracketKey :
    Brackets.readKey? w.bracketKey = some ("filter", [w.field, w.operator.name]) := by
  have hparts := Brackets.readParts_pair
    (fun c hc => ne_bracket_of_isFieldChar (w.field_plain c hc))
    (ne_bracket_of_mem_name w.operator)
  have hroot : "filter".toList = ['f', 'i', 'l', 't', 'e', 'r'] := by decide
  have hkey := Brackets.readKey?_of_root hroot (by decide) (by decide)
    (w.field.toList ++ ']' :: '[' :: (w.operator.name.toList ++ [']']))
  rw [hparts] at hkey
  refine hkey.trans ?_
  simp

end ClientFilter

namespace Entries

theorem get?_append (entries entries' : Entries) (key : String) :
    Entries.get? (entries ++ entries') key = (entries.get? key).or (entries'.get? key) := by
  unfold Entries.get?
  rw [List.find?_append]
  cases entries.find? fun e => e.1 == key <;> rfl

theorem get?_of_not_mem {entries : Entries} {key : String} (h : key ∉ entries.map (·.1)) :
    entries.get? key = none := by
  rw [Entries.get?, Option.map_eq_none_iff, List.find?_eq_none]
  intro e he
  rw [beq_iff_eq]
  rintro rfl
  exact h (List.mem_map_of_mem he)

theorem has_eq_isSome (entries : Entries) (key : String) :
    entries.has key = (entries.get? key).isSome := by
  rw [Entries.has, Entries.get?, Option.isSome_map, Bool.eq_iff_iff, List.any_eq_true,
    List.find?_isSome]

end Entries

namespace Params

theorem first_of_text {params : Params} {name s : String} (h : params.get? name = some (.text s))
    (hs : s ≠ "") (names : List String) : first params (name :: names) = .text s := by
  rw [first, h]
  simp [last, Value.isMissing, Value.isNull, Value.isEmptyText, hs]

/-- A text stands for itself if it is not empty, and if nothing else is found for it. -/
theorem first_eq_ite {params : Params} {name s : String} {names : List String}
    (h : params.get? name = some (.text s)) (hrest : first params names = .null) :
    first params (name :: names) = if s = "" then .null else .text s := by
  by_cases hs : s = ""
  · rw [if_pos hs, first, h, hs]
    exact hrest
  · rw [if_neg hs, first_of_text h hs]

theorem trimmedText_ite (s : String) :
    trimmedText (if s = "" then .null else .text s) = trimmedText (.text s) := by
  by_cases hs : s = ""
  · rw [if_pos hs, hs]
    rfl
  · rw [if_neg hs]

/-- The tree of a root when a further key has been read. -/
def grown (root : String) (tree : Entries) (e : String × Value) : Entries :=
  match Brackets.readKey? e.1 with
  | some (name, path) => if name = root then Tree.insertAt tree path e.2 else tree
  | none => tree

theorem tree_eq (params : Params) (root : String) :
    params.tree root = params.foldl (grown root) (Tree.below params root) := rfl

/-- Keys that are no paths add nothing. -/
theorem foldl_grown_plain {params : Params} (h : ∀ e ∈ params, Brackets.readKey? e.1 = none)
    (root : String) (tree : Entries) : params.foldl (grown root) tree = tree := by
  induction params generalizing tree with
  | nil => rfl
  | cons e params ih =>
    rw [List.foldl_cons, grown, h e List.mem_cons_self]
    exact ih (fun e' he' => h e' (List.mem_cons_of_mem _ he')) tree

theorem tree_eq_nil {params : Params} {root : String}
    (h : ∀ key ∈ params.map (·.1), Brackets.readKey? key = none)
    (hroot : params.get? root = none) : params.tree root = [] := by
  rw [tree_eq, foldl_grown_plain fun e he => h e.1 (List.mem_map_of_mem he), Tree.below, hroot]
  rfl

end Params

namespace ClientFilter

variable (spelling : Spelling)

theorem foldl_grown {filters : List ClientFilter} {tree : Entries}
    (hnodup : (tree.map (·.1) ++ filters.map (·.field)).Nodup) :
    (filters.map fun w => (w.bracketKey, w.value spelling)).foldl (Params.grown "filter") tree =
      tree ++ filters.map fun w => (w.field, .mapping [(w.operator.name, w.value spelling)]) := by
  induction filters generalizing tree with
  | nil => simp
  | cons w filters ih =>
    have hnew : w.field ∉ tree.map (·.1) := by
      intro hmem
      exact List.disjoint_of_nodup_append hnodup hmem List.mem_cons_self
    have hgrown : Params.grown "filter" tree (w.bracketKey, w.value spelling) =
        tree ++ [(w.field, .mapping [(w.operator.name, w.value spelling)])] := by
      rw [Params.grown, w.readKey?_bracketKey]
      simp only [if_true, Tree.insertAt]
      rw [Json.put_of_not_mem hnew, Tree.below, Entries.get?_of_not_mem hnew]
      rfl
    rw [List.map_cons, List.foldl_cons, hgrown, ih]
    · simp
    · simpa using hnodup

end ClientFilter

namespace ClientQuery

variable (q : ClientQuery) (spelling : Spelling)

/-- The entries of a simple request that are no filters. -/
def unfiltered (page pageSize : Value) : Params :=
  [("page", page), ("pageSize", pageSize),
    ("sort", .text (.ofList (joinWith ',' (q.sort.map (·.part)))))] ++ q.shared

/-- A name without brackets is none of the keys of filters. -/
theorem get?_simple {name : String} (h : '[' ∉ name.toList) (page pageSize : Value) :
    (q.simple spelling page pageSize).get? name = (q.unfiltered page pageSize).get? name := by
  have hnone : Entries.get? (q.filters.map fun w => (w.bracketKey, w.value spelling)) name =
      none := by
    refine Entries.get?_of_not_mem fun hmem => h ?_
    simp only [List.map_map, List.mem_map, Function.comp_apply] at hmem
    obtain ⟨w, -, rfl⟩ := hmem
    rw [w.toList_bracketKey]
    exact List.mem_append_right _ List.mem_cons_self
  change Entries.get? (q.unfiltered page pageSize ++ _) name = _
  rw [Entries.get?_append, hnone, Option.or_none]

/-- The tree of the filters: a mapping with one operator for every field. -/
theorem tree_simple (page pageSize : Value) :
    (q.simple spelling page pageSize).tree "filter" =
      q.filters.map fun w => (w.field, .mapping [(w.operator.name, w.value spelling)]) := by
  have hbelow : Tree.below (q.simple spelling page pageSize) "filter" = [] := by
    rw [Tree.below, q.get?_simple spelling (by decide)]
    rfl
  have hplain : ∀ e ∈ q.unfiltered page pageSize, Brackets.readKey? e.1 = none := by
    have hkeys : ∀ key ∈ ["page", "pageSize", "sort", "search", "includeDeleted"],
        Brackets.readKey? key = none := by decide +kernel
    intro e he
    exact hkeys e.1 (List.mem_map_of_mem (f := (·.1)) he)
  rw [Params.tree_eq, hbelow]
  change List.foldl _ _ (q.unfiltered page pageSize ++ _) = _
  rw [List.foldl_append, Params.foldl_grown_plain hplain,
    ClientFilter.foldl_grown spelling (by simpa using q.fields_nodup), List.nil_append]

end ClientQuery

namespace ClientFilter

variable (w : ClientFilter) (spelling : Spelling)

theorem operandOf_value :
    operandOf w.operator.name (w.value spelling) = w.draft.value := by
  unfold operandOf value draft
  by_cases hmulti : isMultiValued w.operator.name = true
  · simp only [if_pos hmulti, splitCommas_spell (w.operands_plain hmulti)]
  · simp only [if_neg hmulti]
    rfl

theorem fieldName_field : fieldName (.text w.field) = w.field := fieldName_eq_self w.field_plain

end ClientFilter

namespace ClientSort

variable (s : ClientSort)

theorem lowered_name (d : Direction) : Params.lowered (.text d.name) = d.name := by
  cases d <;> decide +kernel

theorem comma_not_mem_part : ',' ∉ s.part := by
  have hname : ',' ∉ s.direction.name.toList := by cases s.direction <;> decide
  simp only [part, List.mem_append, List.mem_cons, not_or]
  exact ⟨s.field_plain.1, by decide, hname⟩

theorem trimChars_part :
    trimChars s.part = s.field.toList.dropWhile isBlank ++ ':' :: s.direction.name.toList := by
  obtain ⟨cs, c, hname, hc⟩ : ∃ cs c, s.direction.name.toList = cs ++ [c] ∧ isBlank c = false := by
    cases s.direction
    · exact ⟨['a', 's'], 'c', by decide, by decide⟩
    · exact ⟨['d', 'e', 's'], 'c', by decide, by decide⟩
  have hdrop : ∀ fs rest, (fs ++ ':' :: rest).dropWhile isBlank =
      fs.dropWhile isBlank ++ ':' :: rest := by
    intro fs rest
    induction fs with
    | nil => exact List.dropWhile_cons_of_neg (by decide)
    | cons f fs ih => cases hf : isBlank f <;> simp [hf, ih]
  rw [part, hname, trimChars, ← List.cons_append, ← List.append_assoc, stripChars_append hc, hdrop]
  simp

theorem sortPart_part : Simple.sortPart s.part = s.drafts := by
  have hcolon : ':' ∉ s.field.toList.dropWhile isBlank := fun h =>
    s.field_plain.2 ((List.dropWhile_sublist _).subset h)
  have hdirection : (Value.text s.direction.name).isTruthy = true := by
    cases s.direction <;> decide
  have hfield : fieldName (.text (.ofList (s.field.toList.dropWhile isBlank))) =
      fieldName (.text s.field) := by
    rw [fieldName_of_text, fieldName_of_text, String.toList_ofList, trimChars, stripChars, trimChars,
      stripChars, List.dropWhile_idempotent]
  unfold Simple.sortPart drafts
  simp only [trimChars_part, cutAt_append hcolon, hfield, Option.getD_some, String.ofList_toList,
    Value.orElse, hdirection, if_true, lowered_name]

end ClientSort

namespace ClientQuery

variable (q : ClientQuery) (spelling : Spelling) (page pageSize : Value)

theorem simple_filters :
    Simple.filters (q.simple spelling page pageSize) = q.filters.map (·.draft) := by
  rw [Simple.filters, tree_simple, List.flatMap_map, ← List.flatMap_singleton' (q.filters.map _),
    List.flatMap_map]
  refine List.flatMap_congr fun w _ => ?_
  simp only [w.fieldName_field, if_neg w.field_ne]
  rw [Simple.fieldFilters, List.map_cons, List.map_nil]
  simp only [canonicalOperator_name, w.operandOf_value]
  rfl

/-- Names without brackets have the same first value with and without filters. -/
theorem first_simple {names : List String} (h : ∀ name ∈ names, '[' ∉ name.toList) :
    Params.first (q.simple spelling page pageSize) names =
      Params.first (q.unfiltered page pageSize) names := by
  induction names with
  | nil => rfl
  | cons name names ih =>
    rw [Params.first, Params.first, q.get?_simple spelling (h name List.mem_cons_self),
      ih fun other hother => h other (List.mem_cons_of_mem _ hother)]

theorem simple_sort :
    Simple.sortByKeys (q.simple spelling page pageSize) ++
      Simple.sortByList (q.simple spelling page pageSize) = q.sort.flatMap (·.drafts) := by
  have hkeys : Simple.sortByKeys (q.simple spelling page pageSize) = [] := by
    rw [Simple.sortByKeys, q.first_simple spelling page pageSize (by decide)]
    rfl
  rw [hkeys, List.nil_append, Simple.sortByList, q.first_simple spelling page pageSize (by decide)]
  have horder : (q.unfiltered page pageSize).get? "sort" =
      some (.text (.ofList (joinWith ',' (q.sort.map (·.part))))) := rfl
  cases hsort : q.sort with
  | nil =>
    rw [Params.first, horder, hsort]
    rfl
  | cons s rest =>
    have hne : joinWith ',' ((s :: rest).map (·.part)) ≠ [] := by
      refine joinWith_ne_nil (by simp) fun piece hpiece => ?_
      obtain ⟨t, -, rfl⟩ := List.mem_map.1 hpiece
      simp [ClientSort.part]
    have hcomma : ∀ piece ∈ (s :: rest).map (·.part), ',' ∉ piece := by
      intro piece hpiece
      obtain ⟨t, -, rfl⟩ := List.mem_map.1 hpiece
      exact t.comma_not_mem_part
    rw [hsort] at horder
    rw [Params.first_of_text horder fun h => hne (by simpa using congrArg String.toList h)]
    simp only [String.toList_ofList]
    rw [splitOn_joinWith (by simp) hcomma, List.flatMap_map]
    exact List.flatMap_congr fun t _ => t.sortPart_part

end ClientQuery

end RecordQuery
