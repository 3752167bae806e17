import RecordQuery.Proofs.Readings
import RecordQuery.Proofs.Trees

/-!
# Orders in keys

A grid may write its order with two keys for each criterion, `sort[index][colId]` for the field and
`sort[index][sort]` for the direction. The keys may come in any order and the numbers may have gaps;
what counts is the value of the index, not its text.

* `Number.readInt_decimal`: the digits of an index are read as the number that they write, unless
  there are too many.
* `RowWindow.InKeys.of_mem_tree`: in the tree of the keys, everything stands under its own index.
* `RowWindow.FlatOrder`: what the order of such keys is.
* `RowWindow.flatSort_order`: this is the order that is read, if no index that counts has too many
  digits. One such index makes the reader fail, which nothing in a request for rows provides for.
-/

namespace RecordQuery

open RecordQuery.Text

/-! ## Numbers in decimal digits -/

namespace Number

/-- The number that decimal digits of any script write, with `start` before them. -/
def decimalFrom (start : Nat) (cs : List Char) : Nat :=
  cs.foldl (fun n c => 10 * n + (decimalValue? c).getD 0) start

variable {cs : List Char}

theorem digitsFrom_decimal (h : ∀ c ∈ cs, isDecimal c = true) (start : Nat) :
    digitsFrom start (asciiDigits cs) = some (decimalFrom start cs) := by
  rw [asciiDigits_eq]
  induction cs generalizing start with
  | nil => rfl
  | cons c cs ih =>
    obtain ⟨v, hv⟩ := Option.isSome_iff_exists.1 (h c List.mem_cons_self)
    have hdigit : asciiDigit c = digitChar v := by simp only [asciiDigit, hv]
    rw [List.map_cons, digitsFrom, hdigit, digitValue?_digitChar (decimalValue?_lt hv),
      Option.bind_some, ih fun d hd => h d (List.mem_cons_of_mem c hd)]
    simp [decimalFrom, hv]

theorem isDigit_of_isDecimal {c : Char} (h : isDecimal c = true) : isDigit c = true := by
  rw [isDigit, h, Bool.true_or]

/-- Decimal digits are read as the number that they write, if there are not too many. -/
theorem readInt_decimal (hne : cs ≠ []) (h : ∀ c ∈ cs, isDecimal c = true)
    (hlength : cs.length ≤ maxDigits) : readInt cs = some (decimalFrom 0 cs : Int) := by
  have hdigits : ∀ c ∈ cs, isDigit c = true := fun c hc => isDigit_of_isDecimal (h c hc)
  have hascii := fun d hd => isDigit_of_mem_asciiDigits (d := d) hdigits hd
  have hnil : (asciiDigits cs).isEmpty = false := by
    rw [List.isEmpty_eq_false_iff]
    exact fun hnil => hne (List.map_eq_nil_iff.1 hnil)
  have hfew : ¬ (asciiDigits cs).length > maxDigits := by
    rw [asciiDigits_eq, List.length_map]
    omega
  have hread : readNat (asciiDigits cs) = some (decimalFrom 0 cs) := by
    rw [readNat, hnil, if_neg Bool.false_ne_true, digitsFrom_decimal h]
  rw [readInt, stripAround_digits hdigits, ungroup, ungroupFrom_digits hascii (by decide),
    Option.bind_eq_bind, Option.bind_some, splitSign_digits hascii]
  simp only [if_neg hfew, hread]
  rfl

end Number

/-! ## Leaves of which no path goes on -/

theorem Tree.graft_eq_some_iff {leaves : Tree.Leaves} (h : Tree.PrefixFree leaves)
    (hends : ∀ leaf ∈ leaves, leaf.1 = []) {v : Value} :
    Tree.graft leaves = some v ↔ ([], v) ∈ leaves := by
  rcases h.cases with rfl | ⟨w, rfl⟩ | ⟨hne, hpaths⟩
  · simp [Tree.graft]
  · simp [Tree.graft, eq_comm]
  · obtain ⟨leaf, hleaf⟩ := List.exists_mem_of_ne_nil leaves hne
    exact absurd (hends leaf hleaf) (hpaths leaf hleaf)

namespace RowWindow

open GridModel (entry directionOf)
open RecordQuery.Number (decimalFrom maxDigits)
open RecordQuery.Tree (beneath ofLeaves)

/-! ## Keys -/

/-- What a key gives of a criterion. -/
inductive Slot where
  | field
  | direction
deriving DecidableEq

def Slot.name : Slot → String
  | field => "colId"
  | direction => "sort"

theorem Slot.name_injective {slot slot' : Slot} (h : slot.name = slot'.name) : slot = slot' := by
  cases slot <;> cases slot' <;> first | rfl | exact absurd h (by decide)

/-- The key for a slot of the criterion with an index. -/
def sortKey (index : String) (slot : Slot) : String :=
  .ofList ("sort".toList ++ '[' :: (index.toList ++ ']' :: '[' :: (slot.name.toList ++ [']'])))

/-- An index consists of decimal digits. -/
def IsIndex (index : String) : Prop :=
  index ≠ "" ∧ ∀ c ∈ index.toList, isDecimal c = true

instance (index : String) : Decidable (IsIndex index) :=
  decidable_of_iff (index ≠ "" ∧ index.toList.all isDecimal = true) (by
    rw [IsIndex, List.all_eq_true])

/-- The number that an index writes. -/
def numberOf (index : String) : Nat := decimalFrom 0 index.toList

theorem path?_sortKey {index : String} (hindex : IsIndex index) (slot : Slot) :
    Brackets.path? "sort" (sortKey index slot) = some [index, slot.name] := by
  have hdigits : ∀ c ∈ index.toList, c ≠ '[' ∧ c ≠ ']' := by
    intro c hc
    constructor <;> rintro rfl <;> exact absurd (hindex.2 _ hc) (by decide)
  have hletters : ∀ c ∈ slot.name.toList, c ≠ '[' ∧ c ≠ ']' := by
    have hall : (slot.name.toList.all fun c => c != '[' && c != ']') = true := by
      cases slot <;> decide
    intro c hc
    simpa using List.all_eq_true.1 hall c hc
  have hroot : "sort".toList = ['s', 'o', 'r', 't'] := by decide
  have hkey := Brackets.readKey?_of_root hroot (by decide) (by decide)
    (index.toList ++ ']' :: '[' :: (slot.name.toList ++ [']']))
  rw [Brackets.readParts_pair hdigits hletters] at hkey
  have hread : Brackets.readKey? (sortKey index slot) = some ("sort", [index, slot.name]) :=
    hkey.trans (by simp)
  simp only [Brackets.path?, hread, if_true]

theorem sortKey_injective {index index' : String} {slot slot' : Slot} (hindex : IsIndex index)
    (hindex' : IsIndex index') (h : sortKey index slot = sortKey index' slot') :
    index = index' ∧ slot = slot' := by
  have hpath := path?_sortKey hindex slot
  rw [h, path?_sortKey hindex', Option.some.injEq, List.cons.injEq, List.cons.injEq] at hpath
  exact ⟨hpath.1.symm, Slot.name_injective hpath.2.1.symm⟩

/-- The parameters fill a slot of the criterion with the index. -/
def Gives (params : Params) (index : String) (slot : Slot) : Prop :=
  IsIndex index ∧ sortKey index slot ∈ params.map (·.1)

/-- The order is written with keys only: every key with its root fills a slot of a criterion, and no
two indices write the same number. -/
structure InKeys (params : Params) : Prop where
  distinct : Entries.Distinct params
  /-- No mapping is handed over for the root. -/
  plain : Tree.below params "sort" = []
  keys : ∀ key ∈ params.map (·.1), Brackets.path? "sort" key ≠ none →
    ∃ index slot, Gives params index slot ∧ key = sortKey index slot
  numbered : ∀ index slot index' slot', Gives params index slot → Gives params index' slot' →
    numberOf index = numberOf index' → index = index'

/-! ## The tree of the keys -/

variable {params : Params}

theorem InKeys.of_path? (h : InKeys params) {e : String × Value} (he : e ∈ params)
    {path : List String} (hpath : Brackets.path? "sort" e.1 = some path) :
    ∃ index slot, Gives params index slot ∧ path = [index, slot.name] ∧
      e.1 = sortKey index slot := by
  obtain ⟨index, slot, hgives, hkey⟩ :=
    h.keys e.1 (List.mem_map_of_mem (f := (·.1)) he) (by rw [hpath]; nofun)
  rw [hkey, path?_sortKey hgives.1, Option.some.injEq] at hpath
  exact ⟨index, slot, hgives, hpath.symm, hkey⟩

/-- A leaf is the value of a key that fills a slot of a criterion. -/
theorem InKeys.of_mem_leaves (h : InKeys params) {path : List String} {v : Value}
    (hleaf : (path, v) ∈ params.leaves "sort") :
    ∃ index slot, Gives params index slot ∧ path = [index, slot.name] ∧
      (sortKey index slot, v) ∈ params := by
  obtain ⟨key, hmem, hpath⟩ := Params.mem_leaves.1 hleaf
  obtain ⟨index, slot, hgives, rfl, rfl⟩ := h.of_path? hmem hpath
  exact ⟨index, slot, hgives, rfl, hmem⟩

theorem mem_leaves_of_mem {index : String} (hindex : IsIndex index) {slot : Slot} {v : Value}
    (hmem : (sortKey index slot, v) ∈ params) :
    ([index, slot.name], v) ∈ params.leaves "sort" :=
  Params.mem_leaves.2 ⟨_, hmem, path?_sortKey hindex slot⟩

/-- All paths are of the same length, and differ as the keys do. -/
theorem InKeys.prefixFree (h : InKeys params) : Tree.PrefixFree (params.leaves "sort") := by
  have hne {a b : String × Value} (ha : a ∈ params) (hb : b ∈ params) (hab : a.1 ≠ b.1)
      {path path' : List String} (hpath : Brackets.path? "sort" a.1 = some path)
      (hpath' : Brackets.path? "sort" b.1 = some path') : ¬ path <+: path' := by
    obtain ⟨index, slot, -, rfl, hakey⟩ := h.of_path? ha hpath
    obtain ⟨index', slot', -, rfl, hbkey⟩ := h.of_path? hb hpath'
    intro hprefix
    have hsame := hprefix.eq_of_length rfl
    rw [List.cons.injEq, List.cons.injEq] at hsame
    exact hab (by rw [hakey, hbkey, hsame.1, Slot.name_injective hsame.2.1])
  rw [Tree.PrefixFree, Params.leaves, List.pairwise_filterMap]
  refine (List.pairwise_map.1 h.distinct).imp_of_mem fun ha hb hab leaf hleaf leaf' hleaf' => ?_
  obtain ⟨path, hpath, rfl⟩ := Option.map_eq_some_iff.1 hleaf
  obtain ⟨path', hpath', rfl⟩ := Option.map_eq_some_iff.1 hleaf'
  exact ⟨hne ha hb hab hpath hpath', hne hb ha (Ne.symm hab) hpath' hpath⟩

/-- Below an index and the name of a slot stands the value of their key. -/
theorem InKeys.graft_beneath (h : InKeys params) {index : String} (hindex : IsIndex index)
    (slot : Slot) :
    Tree.graft (beneath slot.name (beneath index (params.leaves "sort"))) =
      params.get? (sortKey index slot) := by
  have hends : ∀ leaf ∈ beneath slot.name (beneath index (params.leaves "sort")),
      leaf.1 = [] := by
    rintro ⟨path, v⟩ hleaf
    obtain ⟨_, _, -, hpath, -⟩ := h.of_mem_leaves (Tree.mem_beneath.1 (Tree.mem_beneath.1 hleaf))
    rw [List.cons.injEq, List.cons.injEq] at hpath
    exact hpath.2.2
  ext v
  rw [Tree.graft_eq_some_iff h.prefixFree.beneath.beneath hends, Tree.mem_beneath, Tree.mem_beneath,
    Entries.get?_eq_some_iff h.distinct]
  constructor
  · intro hleaf
    obtain ⟨_, _, -, hpath, hmem⟩ := h.of_mem_leaves hleaf
    rw [List.cons.injEq, List.cons.injEq] at hpath
    rwa [hpath.1, Slot.name_injective hpath.2.1]
  · exact mem_leaves_of_mem hindex

/-- In the tree of the keys, everything stands under its own index. -/
theorem InKeys.of_mem_tree (h : InKeys params) {e : String × Value}
    (he : e ∈ params.tree "sort") :
    (∃ slot, Gives params e.1 slot) ∧ ∃ spec : Entries, e.2 = .mapping spec ∧
      ∀ slot : Slot, spec.get? slot.name = params.get? (sortKey e.1 slot) := by
  have hpaths : ∀ leaf ∈ params.leaves "sort", leaf.1 ≠ [] := fun _ => Params.path_ne_nil
  rw [Params.tree_eq_ofLeaves_of_below h.plain] at he
  obtain ⟨path, v, hleaf⟩ := Tree.exists_leaf_of_mem h.prefixFree hpaths he
  obtain ⟨index, slot, hgives, hpath, -⟩ := h.of_mem_leaves hleaf
  rw [List.cons.injEq] at hpath
  obtain ⟨rfl, rfl⟩ := hpath
  have hbelow : ∀ leaf ∈ beneath e.1 (params.leaves "sort"), leaf.1 ≠ [] := by
    rintro ⟨path, w⟩ hleaf hnil
    obtain ⟨_, _, -, hpath, -⟩ := h.of_mem_leaves (Tree.mem_beneath.1 hleaf)
    rw [show path = [] from hnil] at hpath
    cases hpath
  have hget := (Entries.get?_eq_some_iff (Tree.distinct_ofLeaves _)).2 he
  rw [Tree.get?_ofLeaves h.prefixFree hpaths,
    Tree.graft_of_ne (List.ne_nil_of_mem (Tree.mem_beneath.2 hleaf)) hbelow,
    Option.some.injEq] at hget
  refine ⟨⟨slot, hgives⟩, _, hget.symm, fun slot' => ?_⟩
  rw [Tree.get?_ofLeaves h.prefixFree.beneath hbelow, h.graft_beneath hgives.1]

/-- Every index that is given has an entry in the tree. -/
theorem InKeys.mem_tree (h : InKeys params) {index : String} (hindex : IsIndex index)
    {slot : Slot} {v : Value} (hv : params.get? (sortKey index slot) = some v) :
    index ∈ (params.tree "sort").map (·.1) := by
  have hpaths : ∀ leaf ∈ params.leaves "sort", leaf.1 ≠ [] := fun _ => Params.path_ne_nil
  rw [Params.tree_eq_ofLeaves_of_below h.plain]
  by_contra hnone
  have hget := Tree.get?_ofLeaves h.prefixFree hpaths index
  rw [Entries.get?_of_not_mem hnone] at hget
  have hleaf := mem_leaves_of_mem hindex ((Entries.get?_eq_some_iff h.distinct).1 hv)
  have hbeneath := Tree.mem_beneath.2 hleaf
  unfold Tree.graft at hget
  split at hget
  · rename_i hnil
    rw [hnil] at hbeneath
    cases hbeneath
  · cases hget
  · cases hget

/-! ## Criteria -/

/-- The field that is given under an index. -/
def fieldAt (params : Params) (index : String) : String :=
  fieldName (Params.last ((params.get? (sortKey index .field)).getD .null))

/-- The direction that is given under an index, or else the ascending one. -/
def directionAt (params : Params) (index : String) : String :=
  let given := Params.last ((params.get? (sortKey index .direction)).getD .null)
  if given.isTruthy then Params.lowered given else "asc"

/-- The criterion with an index. -/
def criterionAt (params : Params) (index : String) : DraftSort :=
  { field := fieldAt params index, direction := .text (directionAt params index) }

/-- An entry of the tree is the criterion with its index. It is passed over if it has no field, and
it cannot be read if the index has too many digits. -/
theorem InKeys.indexedSort_eq (h : InKeys params) {e : String × Value}
    (he : e ∈ params.tree "sort") :
    indexedSort e.1 e.2 =
      if fieldAt params e.1 = "" then .ok []
      else if maxDigits < e.1.toList.length then .error (.fault .unreadable)
      else .ok [((numberOf e.1 : Int), criterionAt params e.1)] := by
  obtain ⟨⟨_, ⟨hne, hdecimal⟩, -⟩, spec, hspec, hslots⟩ := h.of_mem_tree he
  have hchars : e.1.toList ≠ [] := fun hnil => hne (String.toList_eq_nil_iff.1 hnil)
  have hdigits : ∀ c ∈ e.1.toList, isDigit c = true := fun c hc =>
    Number.isDigit_of_isDecimal (hdecimal c hc)
  have hnamed : spec.get? "colId" = params.get? (sortKey e.1 .field) := hslots .field
  have hdirected : spec.get? "sort" = params.get? (sortKey e.1 .direction) := hslots .direction
  have hfield : fieldName (Params.last (entry spec "colId")) = fieldAt params e.1 := by
    rw [entry, hnamed, fieldAt]
  have hdirection : directionOf (Params.last (entry spec "sort")) =
      .text (directionAt params e.1) := by
    rw [entry, hdirected, directionAt, directionOf, Value.orElse]
    split
    · rfl
    · exact congrArg Value.text (by decide +kernel)
  rw [hspec, indexedSort, hfield, hdirection]
  by_cases hempty : fieldAt params e.1 = ""
  · rw [if_pos hempty, if_pos (.inr (.inr hempty))]
  · have hread : ¬ (e.1 = "" ∨ (!e.1.toList.all isDigit) = true ∨ fieldAt params e.1 = "") := by
      simp [hne, hempty, List.all_eq_true.2 hdigits]
    rw [if_neg hempty, if_neg hread]
    by_cases hlong : maxDigits < e.1.toList.length
    · rw [if_pos hlong, (Number.readInt_digits_eq_none hchars hdigits).2 (.inl hlong)]
    · rw [if_neg hlong, Number.readInt_decimal hchars hdecimal (by omega)]
      rfl

theorem indexedSort_eq_error {key : String} {v : Value} {e : ParseError}
    (h : indexedSort key v = .error e) : e = .fault .unreadable := by
  unfold indexedSort at h
  split at h
  · simp only at h
    split at h
    · cases h
    · split at h
      · cases h
      · cases h
        rfl
  · cases h

/-- Entries that can be read give the criteria of those that have a field. -/
theorem indexedSorts_eq_ok {f : String → Int × DraftSort} {tree : Entries}
    (h : ∀ e ∈ tree, indexedSort e.1 e.2 =
      .ok (if fieldAt params e.1 = "" then [] else [f e.1])) :
    indexedSorts tree =
      .ok (((tree.map (·.1)).filter fun index => fieldAt params index != "").map f) := by
  induction tree with
  | nil => rfl
  | cons e rest ih =>
    obtain ⟨hhead, hrest⟩ := List.forall_mem_cons.1 h
    rw [indexedSorts, hhead, ih hrest, List.map_cons]
    by_cases hempty : fieldAt params e.1 = ""
    · rw [if_pos hempty, List.filter_cons_of_neg (by simp [hempty])]
      rfl
    · rw [if_neg hempty, List.filter_cons_of_pos (by simp [hempty])]
      rfl

/-- One entry that cannot be read is enough for the reader to fail. -/
theorem indexedSorts_eq_error {tree : Entries} {e : String × Value} (he : e ∈ tree)
    (h : indexedSort e.1 e.2 = .error (.fault .unreadable)) :
    indexedSorts tree = .error (.fault .unreadable) := by
  have hsplit : indexedSorts tree =
      (tree.mapM fun e => indexedSort e.1 e.2).map List.flatten :=
    append_eq_mapM (g := indexedSorts) rfl (fun _ _ => rfl) tree
  rw [hsplit, map_eq_error, mapM_eq_error_iff fun _ _ => indexedSort_eq_error]
  exact ⟨e, he, h⟩

/-! ## The order -/

/-- The indices in the order of their numbers. -/
def byNumber (indices : List String) : List String :=
  indices.mergeSort fun index index' => decide (numberOf index ≤ numberOf index')

theorem byNumber_perm (indices : List String) : (byNumber indices).Perm indices :=
  List.mergeSort_perm _ _

theorem ascending_byNumber {indices : List String} (hnodup : indices.Nodup)
    (hnumbers : ∀ index ∈ indices, ∀ index' ∈ indices,
      numberOf index = numberOf index' → index = index') :
    (byNumber indices).Pairwise fun index index' => numberOf index < numberOf index' := by
  have hperm := byNumber_perm indices
  have hsorted : (byNumber indices).Pairwise fun index index' =>
      decide (numberOf index ≤ numberOf index') = true := by
    refine List.pairwise_mergeSort (fun a b c hab hbc => ?_) (fun a b => ?_) indices
    · simp only [decide_eq_true_eq] at *
      omega
    · simp only [Bool.or_eq_true, decide_eq_true_eq]
      omega
  refine (hsorted.and (hperm.nodup_iff.2 hnodup)).imp_of_mem fun {index index'} hmem hmem' h => ?_
  have hle : numberOf index ≤ numberOf index' := of_decide_eq_true h.1
  have hne : numberOf index ≠ numberOf index' := fun hsame =>
    h.2 (hnumbers index (hperm.mem_iff.1 hmem) index' (hperm.mem_iff.1 hmem') hsame)
  omega

/-- What is sorted by the numbers of its indices is in the order of the indices. -/
theorem mergeSort_numbered (f : String → DraftSort) (indices : List String) :
    (indices.map fun index => ((numberOf index : Int), f index)).mergeSort
        (fun a b => decide (a.1 ≤ b.1)) =
      (byNumber indices).map fun index => ((numberOf index : Int), f index) := by
  refine (List.map_mergeSort fun index _ index' _ => ?_).symm
  simp

/-- The indices with a field, as they stand in the tree. -/
def shown (params : Params) : List String :=
  ((params.tree "sort").map (·.1)).filter fun index => fieldAt params index != ""

theorem InKeys.mem_shown_iff (h : InKeys params) (index : String) :
    index ∈ shown params ↔ IsIndex index ∧ fieldAt params index ≠ "" := by
  rw [shown, List.mem_filter, bne_iff_ne]
  refine and_congr_left fun hfield => ⟨?_, ?_⟩
  · intro hmem
    obtain ⟨e, he, rfl⟩ := List.mem_map.1 hmem
    obtain ⟨⟨_, hgives⟩, -⟩ := h.of_mem_tree he
    exact hgives.1
  · intro hindex
    cases hget : params.get? (sortKey index .field) with
    | none =>
      rw [fieldAt, hget] at hfield
      exact absurd rfl hfield
    | some v => exact h.mem_tree hindex hget

theorem InKeys.ascending_shown (h : InKeys params) :
    (byNumber (shown params)).Pairwise fun index index' => numberOf index < numberOf index' := by
  have hgives : ∀ index ∈ shown params, ∃ slot, Gives params index slot := by
    intro index hindex
    obtain ⟨e, he, rfl⟩ := List.mem_map.1 (List.mem_filter.1 hindex).1
    exact (h.of_mem_tree he).1
  refine ascending_byNumber (List.Nodup.filter _ ?_) fun index hindex index' hindex' hsame => ?_
  · rw [Params.tree_eq_ofLeaves_of_below h.plain]
    exact Tree.distinct_ofLeaves _
  · obtain ⟨slot, hone⟩ := hgives index hindex
    obtain ⟨slot', hother⟩ := hgives index' hindex'
    exact h.numbered index slot index' slot' hone hother hsame

theorem InKeys.flatSort_eq_ok (h : InKeys params)
    (hfew : ∀ index ∈ shown params, index.toList.length ≤ maxDigits) :
    flatSort params = .ok ((byNumber (shown params)).map (criterionAt params)) := by
  have hfound : indexedSorts (params.tree "sort") =
      .ok ((shown params).map fun index => ((numberOf index : Int), criterionAt params index)) := by
    refine indexedSorts_eq_ok fun e he => ?_
    rw [h.indexedSort_eq he]
    by_cases hempty : fieldAt params e.1 = ""
    · rw [if_pos hempty, if_pos hempty]
    · have hmem : e.1 ∈ shown params :=
        List.mem_filter.2 ⟨List.mem_map_of_mem he, by simpa using hempty⟩
      rw [if_neg hempty, if_neg hempty, if_neg (Nat.not_lt.2 (hfew e.1 hmem))]
  rw [flatSort, hfound]
  refine congrArg Except.ok ?_
  rw [mergeSort_numbered, List.map_map]
  rfl

theorem InKeys.flatSort_eq_error (h : InKeys params) {index : String}
    (hindex : index ∈ shown params) (hlong : maxDigits < index.toList.length) :
    flatSort params = .error (.fault .unreadable) := by
  obtain ⟨hkey, hfield⟩ := List.mem_filter.1 hindex
  obtain ⟨e, he, rfl⟩ := List.mem_map.1 hkey
  have hfails : indexedSort e.1 e.2 = .error (.fault .unreadable) := by
    rw [h.indexedSort_eq he, if_neg (by simpa using hfield), if_pos hlong]
  rw [flatSort, indexedSorts_eq_error he hfails]
  rfl

/-- The indices that count, which are those with a field, in the order of their numbers. -/
structure FlatOrder (params : Params) (indices : List String) : Prop where
  ascending : indices.Pairwise fun index index' => numberOf index < numberOf index'
  mem_iff : ∀ index, index ∈ indices ↔ IsIndex index ∧ fieldAt params index ≠ ""
  /-- Each has its own criterion. -/
  read : (∀ index ∈ indices, index.toList.length ≤ maxDigits) →
    flatSort params = .ok (indices.map (criterionAt params))
  unread : (∃ index ∈ indices, maxDigits < index.toList.length) →
    flatSort params = .error (.fault .unreadable)

/-- The order in keys goes by the numbers of the indices, with each direction under its own index;
indices without a field do not count. It cannot be read if an index that counts has too many
digits. -/
theorem flatSort_order (h : InKeys params) : ∃ indices, FlatOrder params indices := by
  have hmem (index : String) : index ∈ byNumber (shown params) ↔ index ∈ shown params :=
    (byNumber_perm _).mem_iff
  refine ⟨byNumber (shown params), h.ascending_shown, fun index => ?_, fun hfew => ?_, ?_⟩
  · rw [hmem, h.mem_shown_iff]
  · exact h.flatSort_eq_ok fun index hindex => hfew index ((hmem index).2 hindex)
  · rintro ⟨index, hindex, hlong⟩
    exact h.flatSort_eq_error ((hmem index).1 hindex) hlong

/-- There is one list of the indices that count in the order of their numbers. -/
theorem FlatOrder.eq_of_ascending {indices indices' : List String} (h : FlatOrder params indices)
    (hascending : indices'.Pairwise fun index index' => numberOf index < numberOf index')
    (hmem : ∀ index, index ∈ indices' ↔ IsIndex index ∧ fieldAt params index ≠ "") :
    indices = indices' := by
  have hnodup {l : List String}
      (hl : l.Pairwise fun index index' => numberOf index < numberOf index') : l.Nodup :=
    hl.imp fun hlt heq => absurd hlt (by rw [heq]; omega)
  have hperm : indices.Perm indices' :=
    (List.perm_ext_iff_of_nodup (hnodup h.ascending) (hnodup hascending)).2 fun index => by
      rw [h.mem_iff, hmem]
  refine hperm.eq_of_pairwise (fun a b _ _ hab hba => ?_) h.ascending hascending
  omega

/-! ## Two criteria -/

/-- A key without a path below the root fills no slot of a criterion. -/
theorem ne_sortKey {key index : String} (hkey : Brackets.path? "sort" key = none)
    (hindex : IsIndex index) (slot : Slot) : key ≠ sortKey index slot := by
  rintro rfl
  rw [path?_sortKey hindex] at hkey
  cases hkey

/-- Titles under an index, and under the index 9 the genres downwards. -/
def titleAndGenre (index : String) : Params :=
  [("startRow", .text "0"), (sortKey index .field, .text "title"),
    (sortKey "9" .direction, .text "DESC"), (sortKey "9" .field, .text "genre")]

theorem isIndex_nine : IsIndex "9" := by decide

theorem numberOf_nine : numberOf "9" = 9 := by decide

theorem path?_startRow : Brackets.path? "sort" "startRow" = none := by decide +kernel

section TitleAndGenre

variable {index : String} (hindex : IsIndex index) (hnumber : 9 < numberOf index)

include hindex

/-- The slots that are filled. -/
theorem gives_titleAndGenre {other : String} {slot : Slot} :
    Gives (titleAndGenre index) other slot ↔
      (other = index ∧ slot = .field) ∨ other = "9" := by
  constructor
  · rintro ⟨hother, hmem⟩
    simp only [titleAndGenre, List.map_cons, List.map_nil, List.mem_cons, List.not_mem_nil,
      or_false] at hmem
    rcases hmem with hkey | hkey | hkey | hkey
    · exact absurd hkey.symm (ne_sortKey path?_startRow hother slot)
    · exact .inl (sortKey_injective hother hindex hkey)
    · exact .inr (sortKey_injective hother isIndex_nine hkey).1
    · exact .inr (sortKey_injective hother isIndex_nine hkey).1
  · rintro (⟨rfl, rfl⟩ | rfl)
    · exact ⟨hindex, by simp [titleAndGenre]⟩
    · refine ⟨isIndex_nine, ?_⟩
      cases slot <;> simp [titleAndGenre]

include hnumber

theorem inKeys_titleAndGenre : InKeys (titleAndGenre index) := by
  have hne : index ≠ "9" := by
    rintro rfl
    rw [numberOf_nine] at hnumber
    omega
  have hkeys {slot slot' : Slot} : sortKey index slot ≠ sortKey "9" slot' := fun h =>
    hne (sortKey_injective hindex isIndex_nine h).1
  have hnine : sortKey "9" .direction ≠ sortKey "9" .field := fun h => by
    cases (sortKey_injective isIndex_nine isIndex_nine h).2
  have hplain {key : String} (hkey : Brackets.path? "sort" key = none) {slot : Slot} :
      key ≠ sortKey index slot ∧ key ≠ sortKey "9" slot :=
    ⟨ne_sortKey hkey hindex slot, ne_sortKey hkey isIndex_nine slot⟩
  constructor
  · simp [Entries.Distinct, titleAndGenre, hplain path?_startRow, hkeys, hnine]
  · have hroot : Brackets.path? "sort" "sort" = none := by decide +kernel
    have hnone : (titleAndGenre index).get? "sort" = none := by
      refine Entries.get?_of_not_mem ?_
      simp [titleAndGenre, hplain hroot]
    rw [Tree.below, hnone]
    rfl
  · intro key hkey hpath
    simp only [titleAndGenre, List.map_cons, List.map_nil, List.mem_cons, List.not_mem_nil,
      or_false] at hkey
    rcases hkey with rfl | rfl | rfl | rfl
    · exact absurd path?_startRow hpath
    · exact ⟨index, .field, (gives_titleAndGenre hindex).2 (.inl ⟨rfl, rfl⟩), rfl⟩
    · exact ⟨"9", .direction, (gives_titleAndGenre hindex).2 (.inr rfl), rfl⟩
    · exact ⟨"9", .field, (gives_titleAndGenre hindex).2 (.inr rfl), rfl⟩
  · intro i slot j slot' hi hj hsame
    have hnine := numberOf_nine
    rcases (gives_titleAndGenre hindex).1 hi with ⟨rfl, -⟩ | rfl <;>
      rcases (gives_titleAndGenre hindex).1 hj with ⟨rfl, -⟩ | rfl <;>
      first | rfl | omega

/-- What is read under the two indices. -/
theorem criterionAt_titleAndGenre :
    criterionAt (titleAndGenre index) index = ⟨"title", .text "asc"⟩ ∧
      criterionAt (titleAndGenre index) "9" = ⟨"genre", .text "desc"⟩ := by
  have hget {key : String} {v : Value} (hmem : (key, v) ∈ titleAndGenre index) :
      (titleAndGenre index).get? key = some v :=
    (Entries.get?_eq_some_iff (inKeys_titleAndGenre hindex hnumber).distinct).2 hmem
  have htitle : (titleAndGenre index).get? (sortKey index .field) = some (.text "title") :=
    hget (by simp [titleAndGenre])
  have hgenre : (titleAndGenre index).get? (sortKey "9" .field) = some (.text "genre") :=
    hget (by simp [titleAndGenre])
  have hdown : (titleAndGenre index).get? (sortKey "9" .direction) = some (.text "DESC") :=
    hget (by simp [titleAndGenre])
  have hnone : (titleAndGenre index).get? (sortKey index .direction) = none := by
    refine Entries.get?_of_not_mem fun hmem => ?_
    rcases (gives_titleAndGenre hindex).1 ⟨hindex, hmem⟩ with ⟨-, hslot⟩ | rfl
    · cases hslot
    · rw [numberOf_nine] at hnumber
      omega
  constructor
  · rw [criterionAt, fieldAt, directionAt, htitle, hnone]
    rfl
  · rw [criterionAt, fieldAt, directionAt, hgenre, hdown]
    rfl

theorem indices_titleAndGenre {indices : List String}
    (h : FlatOrder (titleAndGenre index) indices) : indices = ["9", index] := by
  obtain ⟨hfirst, hsecond⟩ := criterionAt_titleAndGenre hindex hnumber
  have htitle : fieldAt (titleAndGenre index) index = "title" := congrArg DraftSort.field hfirst
  have hgenre : fieldAt (titleAndGenre index) "9" = "genre" := congrArg DraftSort.field hsecond
  refine h.eq_of_ascending (by simpa [numberOf_nine] using hnumber) fun other => ?_
  constructor
  · intro hmem
    rcases List.mem_pair.1 hmem with rfl | rfl
    · exact ⟨isIndex_nine, fun hempty => absurd (hempty.symm.trans hgenre) (by decide)⟩
    · exact ⟨hindex, fun hempty => absurd (hempty.symm.trans htitle) (by decide)⟩
  · rintro ⟨hother, hfield⟩
    by_cases hmem : sortKey other .field ∈ (titleAndGenre index).map (·.1)
    · rcases (gives_titleAndGenre hindex).1 ⟨hother, hmem⟩ with ⟨rfl, -⟩ | rfl
      · simp
      · simp
    · rw [fieldAt, Entries.get?_of_not_mem hmem] at hfield
      exact absurd rfl hfield

end TitleAndGenre

/-- A power of ten as an index. -/
def powerOfTen (n : Nat) : String := .ofList ('1' :: List.replicate n '0')

theorem isIndex_powerOfTen (n : Nat) : IsIndex (powerOfTen n) := by
  refine ⟨fun hempty => ?_, ?_⟩
  · simpa [powerOfTen] using congrArg String.toList hempty
  · intro c hc
    rw [powerOfTen, String.toList_ofList, List.mem_cons] at hc
    rcases hc with rfl | hc
    · decide
    · rw [List.eq_of_mem_replicate hc]
      decide

theorem numberOf_powerOfTen (n : Nat) : numberOf (powerOfTen n) = 10 ^ n := by
  have hzeros (start n : Nat) :
      decimalFrom start (List.replicate n '0') = start * 10 ^ n := by
    induction n generalizing start with
    | zero => simp [decimalFrom]
    | succ n ih =>
      have hstep : decimalFrom start (List.replicate (n + 1) '0') =
          decimalFrom (10 * start) (List.replicate n '0') := rfl
      rw [hstep, ih, Nat.pow_succ]
      ring
  rw [numberOf, powerOfTen, String.toList_ofList]
  exact (hzeros 1 n).trans (Nat.one_mul _)

/-- The genres come before the titles, for which the index is 10. An index with 4301 digits cannot
be read. -/
theorem titleAndGenre_order :
    flatSort (titleAndGenre (powerOfTen 1)) =
        .ok [⟨"genre", .text "desc"⟩, ⟨"title", .text "asc"⟩] ∧
      flatSort (titleAndGenre (powerOfTen 4300)) = .error (.fault .unreadable) := by
  have hnumber {n : Nat} (hn : 1 ≤ n) : 9 < numberOf (powerOfTen n) := by
    rw [numberOf_powerOfTen]
    exact Nat.lt_of_lt_of_le (by decide) (Nat.pow_le_pow_right (by decide) hn)
  constructor
  · obtain ⟨indices, horder⟩ := flatSort_order
      (inKeys_titleAndGenre (isIndex_powerOfTen 1) (hnumber (Nat.le_refl 1)))
    obtain rfl := indices_titleAndGenre (isIndex_powerOfTen 1) (hnumber (Nat.le_refl 1)) horder
    obtain ⟨hfirst, hsecond⟩ :=
      criterionAt_titleAndGenre (isIndex_powerOfTen 1) (hnumber (Nat.le_refl 1))
    rw [horder.read (by decide), List.map_cons, List.map_cons, hfirst, hsecond]
    rfl
  · have hlarge := hnumber (show 1 ≤ 4300 by decide)
    obtain ⟨indices, horder⟩ := flatSort_order
      (inKeys_titleAndGenre (isIndex_powerOfTen 4300) hlarge)
    obtain rfl := indices_titleAndGenre (isIndex_powerOfTen 4300) hlarge horder
    refine horder.unread ⟨powerOfTen 4300, by simp, ?_⟩
    rw [powerOfTen, String.toList_ofList, List.length_cons, List.length_replicate]
    decide

end RowWindow
end RecordQuery
