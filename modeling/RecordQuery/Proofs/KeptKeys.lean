import RecordQuery.Proofs.Trees

/-!
# Keys that last

Keys with one root write their values into a tree in the order in which they come. A path that ends
at a place clears what is below it, and a path that goes on clears the value there. So a value lasts
unless a later path ends on the way to it, ends with it or goes on from it.

* `Tree.lasting`: the leaves that no later leaf clears.
* `Tree.at?_ofLeaves`: a tree holds the values of the lasting leaves, each at its path.
* `Simple.filters_lasting`: the filters with plain operands are those of the lasting leaves.
* `Params.KeyLaws`, `Params.keyLaws`: which parameters can be read back, and which are filters.
-/

namespace RecordQuery

namespace Tree

variable {tree : Entries} {leaves : Leaves} {key : String} {path other : List String} {v : Value}

/-! ## Writing in other places -/

/-- Neither path ends on the other one. -/
def Apart (path other : List String) : Prop := ¬ path <+: other ∧ ¬ other <+: path

instance (path other : List String) : Decidable (Apart path other) :=
  inferInstanceAs (Decidable (_ ∧ _))

theorem apart_cons : Apart (key :: path) (key :: other) ↔ Apart path other := by
  rw [Apart, List.prefix_cons_inj, List.prefix_cons_inj, Apart]

theorem at?_cons (tree : Entries) (key : String) (h : path ≠ []) :
    at? tree (key :: path) = at? (below tree key) path := by
  cases path with
  | nil => exact absurd rfl h
  | cons => rfl

theorem insertAt_cons (tree : Entries) (key : String) (v : Value) (h : path ≠ []) :
    insertAt tree (key :: path) v = tree.put key (.mapping (insertAt (below tree key) path v)) := by
  cases path with
  | nil => exact absurd rfl h
  | cons => rfl

theorem below_put_self (tree : Entries) (key : String) (v : Value) :
    below (tree.put key v) key = v.entries?.getD [] := by
  rw [below, Entries.get?_put_self]
  rfl

theorem at?_put_ne {k : String} (tree : Entries) (v : Value) (h : key ≠ k) :
    at? (tree.put k v) (key :: path) = at? tree (key :: path) := by
  cases path with
  | nil => exact Entries.get?_put_ne tree v h
  | cons next path =>
    rw [at?_cons _ _ (List.cons_ne_nil _ _), at?_cons _ _ (List.cons_ne_nil _ _), below, below,
      Entries.get?_put_ne tree v h]

theorem exists_insertAt (tree : Entries) (key : String) (path : List String) (v : Value) :
    ∃ w, insertAt tree (key :: path) v = tree.put key w := by
  cases path with
  | nil => exact ⟨v, rfl⟩
  | cons => exact ⟨_, rfl⟩

theorem at?_nil_tree (path : List String) : at? [] path = none := by
  induction path with
  | nil => rfl
  | cons key path ih =>
    cases path with
    | nil => rfl
    | cons => exact ih

/-- Writing at a path does not change what is at one that is apart from it. -/
theorem at?_insertAt_apart (h : Apart path other) (tree : Entries) (v : Value) :
    at? (insertAt tree other v) path = at? tree path := by
  induction path generalizing tree other with
  | nil => exact absurd List.nil_prefix h.1
  | cons key path ih =>
    cases other with
    | nil => exact absurd List.nil_prefix h.2
    | cons k other =>
      by_cases hk : key = k
      · subst hk
        have hapart := apart_cons.1 h
        have hpath : path ≠ [] := fun hnil => hapart.1 (hnil ▸ List.nil_prefix)
        have hother : other ≠ [] := fun hnil => hapart.2 (hnil ▸ List.nil_prefix)
        rw [insertAt_cons tree key v hother, at?_cons _ _ hpath, below_put_self, at?_cons _ _ hpath]
        exact ih hapart _
      · obtain ⟨w, hw⟩ := exists_insertAt tree k other v
        rw [hw, at?_put_ne tree w hk]

/-- A value that ends on the way to a place leaves nothing there. -/
theorem at?_insertAt_above (hv : v.entries? = none) (hother : other ≠ []) (hne : path ≠ [])
    (tree : Entries) : at? (insertAt tree other v) (other ++ path) = none := by
  induction other generalizing tree with
  | nil => exact absurd rfl hother
  | cons key other ih =>
    rw [List.cons_append, at?_cons _ _ (List.append_ne_nil_of_right_ne_nil other hne)]
    cases other with
    | nil =>
      rw [insertAt, below_put_self, hv]
      exact at?_nil_tree _
    | cons next other =>
      have hnext : next :: other ≠ [] := List.cons_ne_nil _ _
      rw [insertAt_cons tree key v hnext, below_put_self]
      exact ih hnext _

/-- A path that goes on from a place leaves a mapping there. -/
theorem at?_insertAt_beneath (hpath : path ≠ []) (hne : other ≠ []) (tree : Entries) (v : Value) :
    ∃ entries, at? (insertAt tree (path ++ other) v) path = some (.mapping entries) := by
  induction path generalizing tree with
  | nil => exact absurd rfl hpath
  | cons key path ih =>
    rw [List.cons_append, insertAt_cons tree key v (List.append_ne_nil_of_right_ne_nil path hne)]
    cases path with
    | nil => exact ⟨_, Entries.get?_put_self _ _ _⟩
    | cons next path =>
      have hnext : next :: path ≠ [] := List.cons_ne_nil _ _
      rw [at?_cons _ _ hnext, below_put_self]
      exact ih hnext _

/-- A text does not stand where another path ends or goes on that has been written after it. -/
theorem at?_insertAt_ne (hpath : path ≠ []) (hother : other ≠ []) (hapart : ¬ Apart path other)
    (hne : path ≠ other) (tree : Entries) (text s : String) :
    at? (insertAt tree other (.text text)) path ≠ some (.text s) := by
  rcases not_and_or.1 hapart with hgoes | hends
  · obtain ⟨rest, rfl⟩ := not_not.1 hgoes
    have hrest : rest ≠ [] := by
      rintro rfl
      exact hne (List.append_nil path).symm
    obtain ⟨entries, hentries⟩ := at?_insertAt_beneath hpath hrest tree (.text text)
    rw [hentries]
    exact fun h => Value.noConfusion (Option.some.inj h)
  · obtain ⟨rest, rfl⟩ := not_not.1 hends
    have hrest : rest ≠ [] := by
      rintro rfl
      exact hne (List.append_nil other)
    rw [at?_insertAt_above rfl hother hrest]
    simp

/-! ## Lasting leaves -/

/-- The leaves that no later one clears. -/
def lasting : Leaves → Leaves
  | [] => []
  | leaf :: rest =>
    if ∀ later ∈ rest, Apart leaf.1 later.1 then leaf :: lasting rest else lasting rest

/-- A further leaf clears those that it is not apart from, and lasts itself. -/
theorem lasting_append (leaves : Leaves) (leaf : List String × Value) :
    lasting (leaves ++ [leaf]) =
      (lasting leaves).filter (fun kept => Apart kept.1 leaf.1) ++ [leaf] := by
  induction leaves with
  | nil => simp [lasting]
  | cons first rest ih =>
    rw [List.cons_append, lasting, lasting, ih]
    by_cases hrest : ∀ later ∈ rest, Apart first.1 later.1
    · by_cases hleaf : Apart first.1 leaf.1
      · have hall : ∀ later ∈ rest ++ [leaf], Apart first.1 later.1 :=
          List.forall_mem_append.2 ⟨hrest, List.forall_mem_singleton.2 hleaf⟩
        rw [if_pos hall, if_pos hrest, List.filter_cons_of_pos (by simpa)]
        rfl
      · have hno : ¬ ∀ later ∈ rest ++ [leaf], Apart first.1 later.1 := fun h =>
          hleaf (h leaf (by simp))
        rw [if_neg hno, if_pos hrest, List.filter_cons_of_neg (by simpa)]
    · have hno : ¬ ∀ later ∈ rest ++ [leaf], Apart first.1 later.1 := fun h =>
        hrest fun later hlater => h later (List.mem_append_left _ hlater)
      rw [if_neg hno, if_neg hrest]

theorem lasting_sublist (leaves : Leaves) : (lasting leaves).Sublist leaves := by
  induction leaves with
  | nil => exact .slnil
  | cons leaf rest ih =>
    rw [lasting]
    split
    · exact ih.cons_cons leaf
    · exact ih.cons leaf

theorem prefixFree_lasting (leaves : Leaves) : PrefixFree (lasting leaves) := by
  induction leaves with
  | nil => exact .nil
  | cons leaf rest ih =>
    rw [lasting]
    split
    · rename_i h
      exact .cons (fun later hlater => h later ((lasting_sublist rest).subset hlater)) ih
    · exact ih

/-- All leaves last if no path goes on where another one ends. -/
theorem lasting_eq_self (h : PrefixFree leaves) : lasting leaves = leaves := by
  induction leaves with
  | nil => rfl
  | cons leaf rest ih =>
    obtain ⟨hleaf, hrest⟩ := List.pairwise_cons.1 h
    have hleaf : ∀ later ∈ rest, Apart leaf.1 later.1 := hleaf
    rw [lasting, if_pos hleaf, ih hrest]

/-- A leaf that comes once lasts exactly if all later ones are apart from it. -/
theorem mem_lasting_iff {before after : Leaves} {leaf : List String × Value}
    (hbefore : leaf ∉ before) (hafter : leaf ∉ after) :
    leaf ∈ lasting (before ++ leaf :: after) ↔ ∀ later ∈ after, Apart leaf.1 later.1 := by
  induction before with
  | nil =>
    rw [List.nil_append, lasting]
    split
    · rename_i h
      exact iff_of_true List.mem_cons_self h
    · rename_i h
      exact iff_of_false (fun hmem => hafter ((lasting_sublist after).subset hmem)) h
  | cons first before ih =>
    obtain ⟨hne, hrest⟩ := not_or.1 (mt List.mem_cons.2 hbefore)
    rw [List.cons_append, lasting, ← ih hrest]
    split
    · exact List.mem_cons.trans (or_iff_right hne)
    · exact Iff.rfl

/-- A tree that grows from texts holds those of the lasting leaves, each at its path. -/
theorem at?_ofLeaves (hpaths : ∀ leaf ∈ leaves, leaf.1 ≠ [])
    (htexts : ∀ leaf ∈ leaves, ∃ s, leaf.2 = .text s) (hpath : path ≠ []) (s : String) :
    at? (ofLeaves leaves) path = some (.text s) ↔ (path, .text s) ∈ lasting leaves := by
  induction leaves using List.reverseRecOn with
  | nil =>
    rw [ofLeaves, List.foldl_nil, at?_nil_tree]
    simp [lasting]
  | append_singleton leaves leaf ih =>
    obtain ⟨other, v⟩ := leaf
    have hother : other ≠ [] := hpaths (other, v) (by simp)
    obtain ⟨text, rfl⟩ : ∃ text, v = .text text := htexts (other, v) (by simp)
    rw [ofLeaves_append, lasting_append, List.mem_append, List.mem_filter, List.mem_singleton,
      decide_eq_true_iff, Prod.mk.injEq]
    -- The last leaf keeps what is apart from it, writes at its own path and clears the rest.
    by_cases hapart : Apart path other
    · have hne : path ≠ other := fun h => hapart.1 (h ▸ List.prefix_rfl)
      rw [at?_insertAt_apart hapart, ih (fun leaf h => hpaths leaf (List.mem_append_left _ h))
        fun leaf h => htexts leaf (List.mem_append_left _ h)]
      simp [hapart, hne]
    · simp only [hapart, and_false, false_or]
      by_cases hsame : path = other
      · subst hsame
        rw [at?_insertAt _ _ _ hpath]
        simp [eq_comm]
      · simp only [hsame, false_and, iff_false]
        exact at?_insertAt_ne hpath hother hapart hsame _ text s

/-! ## What stands in a tree -/

/-- A text, or a mapping with a single value for each of its keys, made of such values itself. -/
inductive Regular : Value → Prop where
  | text (s : String) : Regular (.text s)
  | mapping {entries : Entries} (distinct : entries.Distinct)
      (values : ∀ e ∈ entries, Regular e.2) : Regular (.mapping entries)

theorem Regular.put (h : Regular (.mapping tree)) (hv : Regular v) :
    Regular (.mapping (tree.put key v)) := by
  cases h with
  | mapping distinct values =>
    exact .mapping (distinct.put key v) (Entries.forall_put values key hv)

theorem regular_below (h : Regular (.mapping tree)) (key : String) :
    Regular (.mapping (below tree key)) := by
  have hnil : Regular (.mapping []) := .mapping List.nodup_nil (by simp)
  cases h with
  | mapping distinct values =>
    rw [Tree.below]
    cases hget : tree.get? key with
    | none => exact hnil
    | some v =>
      have hv := values _ (Json.mem_of_get? hget)
      cases hv with
      | text => exact hnil
      | mapping distinct values => exact .mapping distinct values

theorem Regular.insertAt (h : Regular (.mapping tree)) (hv : Regular v) (path : List String) :
    Regular (.mapping (insertAt tree path v)) := by
  induction path generalizing tree with
  | nil => exact h
  | cons key path ih =>
    cases path with
    | nil => exact h.put hv
    | cons next path =>
      rw [insertAt_cons tree key v (List.cons_ne_nil _ _)]
      exact h.put (ih (regular_below h key))

theorem regular_ofLeaves (htexts : ∀ leaf ∈ leaves, ∃ s, leaf.2 = .text s) :
    Regular (.mapping (ofLeaves leaves)) := by
  induction leaves using List.reverseRecOn with
  | nil => exact .mapping List.nodup_nil (by simp [ofLeaves])
  | append_singleton leaves leaf ih =>
    obtain ⟨s, hs⟩ := htexts leaf (by simp)
    rw [ofLeaves_append, hs]
    exact (ih fun leaf h => htexts leaf (List.mem_append_left _ h)).insertAt (.text s) leaf.1

/-- The values at a key of a tree and at the keys below it, with their paths, but for mappings. -/
def valuesAt (key : String) : Value → Leaves
  | .mapping entries =>
    (entries.filter fun e => e.2.entries?.isNone).map fun e => ([key, e.1], e.2)
  | v => [([key], v)]

/-- The values on the two upper levels of a tree, but for mappings. -/
def upper (tree : Entries) : Leaves := tree.flatMap fun e => valuesAt e.1 e.2

theorem entries?_isNone {v : Value} (h : Regular v) :
    v.entries?.isNone = true ↔ ∃ s, v = .text s := by
  cases h <;> simp [Value.entries?]

theorem mem_valuesAt (h : Regular v) {leaf : List String × Value} :
    leaf ∈ valuesAt key v ↔ ∃ s, leaf.2 = .text s ∧
      (leaf.1 = [key] ∧ v = .text s ∨
        ∃ entries k, leaf.1 = [key, k] ∧ v = .mapping entries ∧ (k, .text s) ∈ entries) := by
  obtain ⟨path, w⟩ := leaf
  cases h with
  | text s => simp [valuesAt, and_comm, eq_comm]
  | mapping distinct values =>
    simp only [valuesAt, List.mem_map, List.mem_filter, Prod.mk.injEq, reduceCtorEq, and_false,
      false_or, Value.mapping.injEq]
    constructor
    · rintro ⟨⟨k, w⟩, ⟨hmem, hnone⟩, rfl, rfl⟩
      obtain ⟨s, rfl⟩ := (entries?_isNone (values _ hmem)).1 hnone
      exact ⟨s, rfl, _, k, rfl, rfl, hmem⟩
    · rintro ⟨s, rfl, _, k, rfl, rfl, hmem⟩
      exact ⟨_, ⟨hmem, rfl⟩, rfl, rfl⟩

/-- The values on the upper levels are the texts at the ends of short paths. -/
theorem mem_upper (h : Regular (.mapping tree)) {leaf : List String × Value} :
    leaf ∈ upper tree ↔ leaf.1.length ≤ 2 ∧ ∃ s, leaf.2 = .text s ∧
      at? tree leaf.1 = some (.text s) := by
  obtain ⟨path, v⟩ := leaf
  cases h with
  | mapping distinct values =>
    simp only [upper, List.mem_flatMap]
    constructor
    · rintro ⟨⟨key, w⟩, hmem, hleaf⟩
      have hget := (Entries.get?_eq_some_iff distinct).2 hmem
      have hw := values _ hmem
      obtain ⟨s, rfl, ⟨rfl, rfl⟩ | ⟨entries, k, rfl, rfl, hk⟩⟩ := (mem_valuesAt hw).1 hleaf
      · exact ⟨by simp, s, rfl, hget⟩
      · refine ⟨by simp, s, rfl, ?_⟩
        cases hw with
        | mapping distinct values =>
          rw [at?_cons _ _ (List.cons_ne_nil _ _), below, hget]
          exact (Entries.get?_eq_some_iff distinct).2 hk
    · rintro ⟨hlength, s, rfl, hat⟩
      cases path with
      | nil => cases hat
      | cons key path =>
        cases path with
        | nil => exact ⟨_, Json.mem_of_get? hat, by simp [valuesAt]⟩
        | cons k path =>
          obtain rfl : path = [] := List.length_eq_zero_iff.1 (by simpa using hlength)
          rw [at?_cons _ _ (List.cons_ne_nil _ _), below] at hat
          cases hget : tree.get? key with
          | none =>
            rw [hget] at hat
            cases hat
          | some w =>
            have hmem := Json.mem_of_get? hget
            rw [hget] at hat
            cases values _ hmem with
            | text => cases hat
            | mapping distinct values =>
              refine ⟨_, hmem, (mem_valuesAt (.mapping distinct values)).2 ?_⟩
              exact ⟨s, rfl, .inr ⟨_, k, rfl, rfl, Json.mem_of_get? hat⟩⟩

theorem nodup_valuesAt (h : Regular v) : (valuesAt key v).Nodup := by
  cases h with
  | text s => exact List.nodup_singleton _
  | mapping distinct values =>
    refine (distinct.nodup.filter _).map fun e e' heq => ?_
    simpa [Prod.ext_iff] using heq

theorem nodup_upper (h : Regular (.mapping tree)) : (upper tree).Nodup := by
  cases h with
  | mapping distinct values =>
    rw [upper, List.nodup_flatMap]
    refine ⟨fun e he => nodup_valuesAt (values e he), ?_⟩
    have hkeys : tree.Pairwise fun e e' => e.1 ≠ e'.1 := List.pairwise_map.1 distinct
    refine hkeys.imp_of_mem fun he he' hne leaf hleaf hleaf' => hne ?_
    have hhead : ∀ e ∈ tree, leaf ∈ valuesAt e.1 e.2 → leaf.1.head? = some e.1 := by
      intro e he hleaf
      obtain ⟨s, -, ⟨hpath, -⟩ | ⟨_, k, hpath, -⟩⟩ := (mem_valuesAt (values e he)).1 hleaf <;>
        rw [hpath] <;> rfl
    exact Option.some.inj ((hhead _ he hleaf).symm.trans (hhead _ he' hleaf'))

/-- The values on the upper levels of a tree of texts are the lasting leaves with short paths. -/
theorem upper_perm (hpaths : ∀ leaf ∈ leaves, leaf.1 ≠ [])
    (htexts : ∀ leaf ∈ leaves, ∃ s, leaf.2 = .text s) :
    (upper (ofLeaves leaves)).Perm ((lasting leaves).filter fun leaf => leaf.1.length ≤ 2) := by
  have hnodup : (lasting leaves).Nodup := by
    refine (prefixFree_lasting leaves).imp fun h heq => h.1 ?_
    rw [heq]
  rw [List.perm_ext_iff_of_nodup (nodup_upper (regular_ofLeaves htexts)) (hnodup.filter _)]
  rintro ⟨path, v⟩
  rw [mem_upper (regular_ofLeaves htexts), List.mem_filter, decide_eq_true_iff, and_comm]
  refine and_congr_left fun _ => ?_
  constructor
  · rintro ⟨s, rfl, hat⟩
    have hpath : path ≠ [] := by
      rintro rfl
      cases hat
    exact (at?_ofLeaves hpaths htexts hpath s).1 hat
  · intro h
    have hmem := (lasting_sublist leaves).subset h
    obtain ⟨s, rfl⟩ : ∃ s, v = .text s := htexts _ hmem
    exact ⟨s, rfl, (at?_ofLeaves hpaths htexts (hpaths _ hmem) s).2 h⟩

end Tree

namespace Simple

/-! ## Filters of leaves -/

/-- The filter that a value below the root of the filters stands for: the path is the name of a
field, or that and an operator. -/
def leafFilter? : List String × Value → Option DraftFilter
  | ([name], v) =>
    let field := fieldName (.text name)
    if field = "" ∨ v.isMissing then none else some { field, operator := "equals", value := v }
  | ([name, op], v) =>
    let field := fieldName (.text name)
    let operator := canonicalOperator (.text op)
    if field = "" then none else some { field, operator, value := operandOf operator v }
  | _ => none

/-- The operand is no mapping, nor a list of one. -/
def isPlain (d : DraftFilter) : Bool :=
  d.value.entries?.isNone && (d.value.items?.getD []).all fun v => v.entries?.isNone

theorem isPlain_operandOf {v : Value} (h : Tree.Regular v) (field operator : String) :
    isPlain { field, operator, value := operandOf operator v } = v.entries?.isNone := by
  unfold operandOf
  cases h with
  | text s =>
    split
    · simp [isPlain, Value.entries?, Value.items?, Params.splitCommas, Params.commaParts]
    · rfl
  | mapping => split <;> rfl

theorem fieldFilters_plain {v : Value} (h : Tree.Regular v) {name : String}
    (hfield : fieldName (.text name) ≠ "") :
    (fieldFilters (fieldName (.text name)) v).filter isPlain =
      (Tree.valuesAt name v).filterMap leafFilter? := by
  cases h with
  | text s =>
    have hlast : Params.last (.text s) = .text s := rfl
    by_cases hmissing : (Value.text s).isMissing = true
    · simp [fieldFilters, Tree.valuesAt, leafFilter?, hlast, hmissing]
    · simp only [fieldFilters, Tree.valuesAt, leafFilter?, hlast, hmissing, hfield,
        List.filterMap_cons, List.filterMap_nil]
      rfl
  | mapping distinct values =>
    rename_i entries
    have hplain : ∀ e ∈ entries, (isPlain ∘ fun e : String × Value =>
        { field := fieldName (.text name), operator := canonicalOperator (.text e.1),
          value := operandOf (canonicalOperator (.text e.1)) e.2 }) e = e.2.entries?.isNone :=
      fun e he => isPlain_operandOf (values e he) _ _
    rw [fieldFilters, Tree.valuesAt, List.filter_map, List.filterMap_map, List.filter_congr hplain,
      ← List.filterMap_eq_map]
    refine List.filterMap_congr fun e _ => ?_
    simp [leafFilter?, hfield]

theorem leafFilter?_of_field_eq_empty {name : String} (hfield : fieldName (.text name) = "")
    {v : Value} : (Tree.valuesAt name v).filterMap leafFilter? = [] := by
  rw [List.filterMap_eq_nil_iff]
  intro leaf hleaf
  cases v <;>
    simp only [Tree.valuesAt, List.mem_singleton, List.mem_map] at hleaf <;>
    first
      | subst hleaf; simp [leafFilter?, hfield]
      | obtain ⟨e, -, rfl⟩ := hleaf; simp [leafFilter?, hfield]

/-- The filters with plain operands are those of the values on the upper levels of the tree. -/
theorem filters_plain {params : Params} (h : Tree.Regular (.mapping (params.tree "filter"))) :
    (filters params).filter isPlain =
      (Tree.upper (params.tree "filter")).filterMap leafFilter? := by
  cases h with
  | mapping distinct values =>
    rw [filters, Tree.upper, List.filter_flatMap, List.filterMap_flatMap]
    refine List.flatMap_congr fun e he => ?_
    by_cases hfield : fieldName (.text e.1) = ""
    · rw [if_pos hfield, leafFilter?_of_field_eq_empty hfield]
      rfl
    · rw [if_neg hfield, fieldFilters_plain (values e he) hfield]

/-- Of the keys below the root of the filters, those that last are the filters with plain
operands. -/
theorem filters_lasting {params : Params} (htexts : ∀ e ∈ params, ∃ s, e.2 = .text s) :
    ((filters params).filter isPlain).Perm
      ((Tree.lasting (params.leaves "filter")).filterMap leafFilter?) := by
  have hleaves : ∀ leaf ∈ params.leaves "filter", ∃ s, leaf.2 = .text s :=
    Params.texts_leaves htexts
  have htree := Params.tree_eq_ofLeaves htexts "filter"
  rw [filters_plain (by rw [htree]; exact Tree.regular_ofLeaves hleaves), htree]
  have hperm := (Tree.upper_perm (fun _ => Params.path_ne_nil) hleaves).filterMap leafFilter?
  rw [List.filterMap_filter] at hperm
  refine hperm.trans (.of_eq (List.filterMap_congr fun leaf _ => ?_))
  -- A longer path is the path of no filter.
  split
  · rfl
  · rename_i hlong
    obtain ⟨path, v⟩ := leaf
    match path with
    | [] | [_] | [_, _] => simp at hlong
    | _ :: _ :: _ :: _ => rfl

end Simple

/-! ## Keys that can be read back -/

namespace Params

/-- What becomes of the keys of parameters. -/
structure KeyLaws (params : Params) : Prop where
  /-- A value stands in the tree at the path of its key exactly if no later path ends on the way
  there or goes on from there. -/
  readable : ∀ (root key s : String) (path : List String) (before after : Params),
    params = before ++ (key, .text s) :: after → Brackets.path? root key = some path →
    (∀ e ∈ before ++ after, Brackets.path? root e.1 ≠ some path) →
    (Tree.at? (params.tree root) path = some (.text s) ↔
      ∀ e ∈ after, ∀ other, Brackets.path? root e.1 = some other → Tree.Apart path other)
  /-- The filters with plain operands are those of the keys that last. -/
  filters : ((Simple.filters params).filter Simple.isPlain).Perm
    ((Tree.lasting (params.leaves "filter")).filterMap Simple.leafFilter?)
  /-- Every key has its filter if no path goes on where another one ends. -/
  separate : Tree.PrefixFree (params.leaves "filter") →
    ((Simple.filters params).filter Simple.isPlain).Perm
      ((params.leaves "filter").filterMap Simple.leafFilter?)

theorem leaves_append (before after : Params) (root : String) :
    leaves (before ++ after) root = before.leaves root ++ after.leaves root :=
  List.filterMap_append

/-- Of keys that are written with brackets, just those are lost whose path a later one ends on or
goes on from. All others are read back from the tree, as the values that they came with; and what is
read of the filters is, in some order, what the keys that last say. -/
theorem keyLaws {params : Params} (htexts : ∀ e ∈ params, ∃ s, e.2 = .text s) :
    params.KeyLaws where
  readable root key s path before after hparams hpath hother := by
    have hnew : ∀ part : Params, part ⊆ before ++ after → (path, .text s) ∉ part.leaves root := by
      intro part hpart hmem
      obtain ⟨key, hkey, hsame⟩ := mem_leaves.1 hmem
      exact hother _ (hpart hkey) hsame
    have hsplit : params.leaves root =
        leaves before root ++ (path, .text s) :: leaves after root := by
      rw [hparams, leaves_append]
      simp [leaves, hpath]
    rw [tree_eq_ofLeaves htexts, Tree.at?_ofLeaves (fun _ => path_ne_nil) (texts_leaves htexts)
      (Brackets.path?_ne_nil hpath), hsplit, Tree.mem_lasting_iff
      (hnew before (List.subset_append_left _ _)) (hnew after (List.subset_append_right _ _))]
    constructor
    · intro h e he other hsame
      exact h (other, e.2) (mem_leaves.2 ⟨e.1, he, hsame⟩)
    · rintro h ⟨other, v⟩ hmem
      obtain ⟨key, hkey, hsame⟩ := mem_leaves.1 hmem
      exact h _ hkey other hsame
  filters := Simple.filters_lasting htexts
  separate hfree := by
    have hperm := Simple.filters_lasting htexts
    rwa [Tree.lasting_eq_self hfree] at hperm

/-- Two filters on the title, of which the second one clears the first. -/
def bothForms : Params :=
  [("filter[title]", .text "Alien"), ("filter[title][contains]", .text "li")]

theorem bothForms_keyLaws :
    bothForms.KeyLaws ∧ Simple.filters bothForms = [⟨"title", "contains", .text "li"⟩] ∧
      Simple.filters bothForms.reverse = [⟨"title", "equals", .text "Alien"⟩] ∧
      Tree.at? (bothForms.tree "filter") ["title"] ≠ some (.text "Alien") := by
  have hlaws : bothForms.KeyLaws := keyLaws (by simp [bothForms])
  have htitle : Brackets.path? "filter" "filter[title]" = some ["title"] := by decide +kernel
  have hcontains :
      Brackets.path? "filter" "filter[title][contains]" = some ["title", "contains"] := by
    decide +kernel
  refine ⟨hlaws, by with_unfolding_all rfl, by with_unfolding_all rfl, ?_⟩
  rw [ne_eq, hlaws.readable "filter" "filter[title]" "Alien" ["title"] [] _ rfl htitle
    (by simp [hcontains])]
  intro h
  exact (h _ List.mem_cons_self _ hcontains).1 (by decide)

end Params
end RecordQuery
