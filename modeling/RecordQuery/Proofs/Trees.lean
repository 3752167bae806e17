import RecordQuery.Proofs.JsonPieces
import RecordQuery.Proofs.Writings

/-!
# Trees in any order

The keys of a root form the same tree in whatever order they come, up to the order of the entries on
its two upper levels. Below those the order of the keys stays to be seen.

* `Entries.perm_of_get?`: entries with different keys are the same, if the same is found in them;
  `Entries.eq_of_get?`: in the same order too, if their keys are in the same order.
* `Tree.get?_ofLeaves`: at a key of a tree stands what the leaves below the key grow into.
* `Tree.alike_of_perm`: leaves in another order grow into a tree that is alike.
* `Params.tree_alike`: so are the trees of parameters in another order.
-/

namespace RecordQuery

/-! ## Entries in any order -/

namespace Entries

variable {es es' : Entries} {k : String} {v : Value}

/-- The keys of the entries differ from each other. -/
def Distinct (es : Entries) : Prop := (es.map (·.1)).Nodup

theorem get?_eq_some_iff (h : es.Distinct) : es.get? k = some v ↔ (k, v) ∈ es := by
  refine ⟨Json.mem_of_get?, fun hmem => ?_⟩
  induction es with
  | nil => cases hmem
  | cons e es ih =>
    obtain ⟨hnew, hrest⟩ := List.nodup_cons.1 h
    rcases List.mem_cons.1 hmem with rfl | hmem
    · simp [get?]
    · have hne : e.1 ≠ k := by
        rintro rfl
        exact hnew (List.mem_map.2 ⟨_, hmem, rfl⟩)
      have hlater := ih hrest hmem
      rw [get?, List.find?_cons_of_neg (by simpa using hne)]
      exact hlater

theorem Distinct.nodup (h : es.Distinct) : es.Nodup := List.Nodup.of_map _ h

theorem Distinct.perm (h : es.Distinct) (hperm : es.Perm es') : es'.Distinct :=
  (hperm.map _).nodup_iff.1 h

theorem get?_perm (h : es.Distinct) (hperm : es.Perm es') (k : String) :
    es.get? k = es'.get? k := by
  ext v
  rw [get?_eq_some_iff h, get?_eq_some_iff (h.perm hperm), hperm.mem_iff]

/-- Entries with different keys in which the same is found differ only in their order. -/
theorem perm_of_get? (h : es.Distinct) (h' : es'.Distinct) (hget : ∀ k, es.get? k = es'.get? k) :
    es.Perm es' := by
  rw [List.perm_ext_iff_of_nodup h.nodup h'.nodup]
  rintro ⟨k, v⟩
  rw [← get?_eq_some_iff h, ← get?_eq_some_iff h', hget]

/-- A key that is there keeps its place, a new one comes last. -/
theorem keys_put (es : Entries) (key : String) (v : Value) :
    (es.put key v).map (·.1)
      = if key ∈ es.map (·.1) then es.map (·.1) else es.map (·.1) ++ [key] := by
  induction es with
  | nil => rfl
  | cons e es ih =>
    obtain ⟨k, w⟩ := e
    by_cases hkey : k = key
    · simp [put, hkey]
    · rw [put, if_neg hkey, List.map_cons, List.map_cons, ih]
      by_cases hmem : key ∈ es.map (·.1)
      · rw [if_pos hmem, if_pos (List.mem_cons_of_mem _ hmem)]
      · rw [if_neg hmem, if_neg (List.not_mem_cons_of_ne_of_not_mem (Ne.symm hkey) hmem)]
        rfl

theorem Distinct.put (h : es.Distinct) (key : String) (v : Value) : (es.put key v).Distinct := by
  rw [Distinct, keys_put]
  by_cases hmem : key ∈ es.map (·.1)
  · rw [if_pos hmem]
    exact h
  · rw [if_neg hmem, ← List.concat_eq_append]
    exact List.Nodup.concat hmem h

/-- Entries with different keys are their keys with what is found at each of them. -/
theorem Distinct.eq_map_get? (h : es.Distinct) :
    es = (es.map (·.1)).map fun k => (k, (es.get? k).getD .null) := by
  rw [List.map_map]
  refine (List.map_id es).symm.trans (List.map_congr_left fun e he => ?_)
  rw [Function.comp_apply, (get?_eq_some_iff h).2 he]
  rfl

/-- Entries with the same keys in the same order are the same, if the same is found in them. -/
theorem eq_of_get? (h : es.Distinct) (hkeys : es.map (·.1) = es'.map (·.1))
    (hget : ∀ k, es.get? k = es'.get? k) : es = es' := by
  have h' : es'.Distinct := by
    rw [Distinct, ← hkeys]
    exact h
  rw [h.eq_map_get?, h'.eq_map_get?, hkeys]
  simp only [hget]

/-- Entries in which related values are found are related one by one, in some order. -/
theorem forall₂_of_get? {R : Value → Value → Prop} (h : es.Distinct) (h' : es'.Distinct)
    (hget : ∀ k, Option.Rel R (es.get? k) (es'.get? k)) :
    ∃ mid, es.Perm mid ∧ List.Forall₂ (fun e e' => e.1 = e'.1 ∧ R e.2 e'.2) mid es' := by
  have hfound : ∀ e' ∈ es', ∃ v, es.get? e'.1 = some v ∧ R v e'.2 := by
    intro e' he'
    have hrel := hget e'.1
    rw [(get?_eq_some_iff h').2 he'] at hrel
    generalize es.get? e'.1 = found at hrel
    cases hrel with
    | some hR => exact ⟨_, rfl, hR⟩
  have hkeys : Distinct (es'.map fun e' => (e'.1, (es.get? e'.1).getD .null)) := by
    rw [Distinct, List.map_map]
    exact h'
  refine ⟨_, (List.perm_ext_iff_of_nodup h.nodup hkeys.nodup).2 ?_, ?_⟩
  · rintro ⟨k, v⟩
    rw [← get?_eq_some_iff h, List.mem_map]
    constructor
    · intro hv
      have hrel := hget k
      rw [hv] at hrel
      generalize hv' : es'.get? k = found at hrel
      cases hrel with
      | some _ => exact ⟨_, Json.mem_of_get? hv', by rw [hv]; rfl⟩
    · rintro ⟨e', he', heq⟩
      obtain ⟨w, hw, -⟩ := hfound e' he'
      cases heq
      rw [hw]
      rfl
  · rw [List.forall₂_map_left_iff, List.forall₂_same]
    intro e' he'
    obtain ⟨v, hv, hR⟩ := hfound e' he'
    rw [hv]
    exact ⟨rfl, hR⟩

end Entries

/-! ## Leaves -/

namespace Tree

/-- Paths with the values at their ends, in the order in which they are written. -/
abbrev Leaves := List (List String × Value)

/-- The leaves below a key, without it. -/
def beneath (key : String) (leaves : Leaves) : Leaves :=
  leaves.filterMap fun leaf => match leaf.1 with
    | k :: path => if k = key then some (path, leaf.2) else none
    | [] => none

def ofLeaves (leaves : Leaves) : Entries :=
  leaves.foldl (fun tree leaf => insertAt tree leaf.1 leaf.2) []

/-- What leaves grow into at one place: a value that ends there, or the tree of what goes on. -/
def graft : Leaves → Option Value
  | [] => none
  | [([], v)] => some v
  | leaves => some (.mapping (ofLeaves leaves))

/-- No path goes on where another one ends. -/
def PrefixFree (leaves : Leaves) : Prop :=
  leaves.Pairwise fun a b => ¬ a.1 <+: b.1 ∧ ¬ b.1 <+: a.1

variable {leaves leaves' : Leaves} {key : String} {v : Value}

theorem mem_beneath {path : List String} :
    (path, v) ∈ beneath key leaves ↔ (key :: path, v) ∈ leaves := by
  simp only [beneath, List.mem_filterMap]
  constructor
  · rintro ⟨⟨path', w⟩, hmem, h⟩
    split at h
    · split at h
      · rename_i hpath hkey
        cases h
        simp only at hpath
        rw [← hkey, ← hpath]
        exact hmem
      · cases h
    · cases h
  · intro hmem
    exact ⟨_, hmem, by simp⟩

theorem beneath_append (leaves leaves' : Leaves) :
    beneath key (leaves ++ leaves') = beneath key leaves ++ beneath key leaves' :=
  List.filterMap_append

theorem PrefixFree.perm (h : PrefixFree leaves) (hperm : leaves.Perm leaves') :
    PrefixFree leaves' :=
  List.Pairwise.perm h hperm fun hab => ⟨hab.2, hab.1⟩

theorem PrefixFree.beneath (h : PrefixFree leaves) : PrefixFree (beneath key leaves) := by
  have hcut : ∀ (leaf : List String × Value) (rest : List String × Value), (match leaf.1 with
      | k :: path => if k = key then some (path, leaf.2) else none
      | [] => none) = some rest → leaf.1 = key :: rest.1 := by
    intro leaf rest hrest
    split at hrest
    · rename_i k path hpath
      split at hrest
      · rename_i hkey
        cases hrest
        rw [hpath, hkey]
      · cases hrest
    · cases hrest
  refine List.Pairwise.filterMap _ (fun a b hab a' ha b' hb => ?_) h
  rw [hcut a a' ha, hcut b b' hb, List.prefix_cons_inj, List.prefix_cons_inj] at hab
  exact hab

/-- A path that ends at a place is the only one there. -/
theorem PrefixFree.cases (h : PrefixFree leaves) :
    leaves = [] ∨ (∃ v, leaves = [([], v)]) ∨ (leaves ≠ [] ∧ ∀ leaf ∈ leaves, leaf.1 ≠ []) := by
  by_cases hends : ∃ leaf ∈ leaves, leaf.1 = []
  · obtain ⟨leaf, hleaf, hnil⟩ := hends
    obtain ⟨before, after, rfl⟩ := List.append_of_mem hleaf
    obtain ⟨-, hafter, hbefore⟩ := List.pairwise_append.1 h
    have hempty : before = [] := by
      refine List.eq_nil_iff_forall_not_mem.2 fun other hother => ?_
      exact (hbefore other hother leaf List.mem_cons_self).2 (hnil ▸ List.nil_prefix)
    have hempty' : after = [] := by
      refine List.eq_nil_iff_forall_not_mem.2 fun other hother => ?_
      exact ((List.pairwise_cons.1 hafter).1 other hother).1 (hnil ▸ List.nil_prefix)
    refine .inr (.inl ⟨leaf.2, ?_⟩)
    rw [hempty, hempty', ← hnil]
    rfl
  · push Not at hends
    rcases eq_or_ne leaves [] with rfl | hne
    · exact .inl rfl
    · exact .inr (.inr ⟨hne, hends⟩)

theorem graft_of_ne (hne : leaves ≠ []) (hpaths : ∀ leaf ∈ leaves, leaf.1 ≠ []) :
    graft leaves = some (.mapping (ofLeaves leaves)) := by
  unfold graft
  split
  · exact absurd rfl hne
  · exact absurd rfl (hpaths _ List.mem_cons_self)
  · rfl

theorem ofLeaves_append (leaves : Leaves) (path : List String) (v : Value) :
    ofLeaves (leaves ++ [(path, v)]) = insertAt (ofLeaves leaves) path v := by
  simp [ofLeaves]

theorem distinct_insertAt {tree : Entries} (h : tree.Distinct) (path : List String) (v : Value) :
    (insertAt tree path v).Distinct := by
  match path with
  | [] => exact h
  | [key] => exact h.put key v
  | key :: next :: path => exact h.put key _

theorem distinct_ofLeaves (leaves : Leaves) : (ofLeaves leaves).Distinct := by
  induction leaves using List.reverseRecOn with
  | nil => exact List.nodup_nil
  | append_singleton leaves leaf ih =>
    rw [ofLeaves_append]
    exact distinct_insertAt ih _ _

/-- What goes on at a place is a tree there, if nothing ends at it. -/
theorem entries_graft (hpaths : ∀ leaf ∈ leaves, leaf.1 ≠ []) :
    ((graft leaves).bind Value.entries?).getD [] = ofLeaves leaves := by
  rcases eq_or_ne leaves [] with rfl | hne
  · rfl
  · rw [graft_of_ne hne hpaths]
    rfl

theorem beneath_singleton (k : String) (path : List String) (v : Value) :
    beneath key [(k :: path, v)] = if k = key then [(path, v)] else [] := by
  by_cases hk : k = key <;> simp [beneath, hk]

/-- At a key of a tree stands what the leaves below the key grow into. -/
theorem get?_ofLeaves (h : PrefixFree leaves) (hpaths : ∀ leaf ∈ leaves, leaf.1 ≠ [])
    (key : String) : (ofLeaves leaves).get? key = graft (beneath key leaves) := by
  induction leaves using List.reverseRecOn with
  | nil => rfl
  | append_singleton leaves leaf ih =>
    obtain ⟨path, v⟩ := leaf
    have ih := ih (List.pairwise_append.1 h).1
      fun leaf hleaf => hpaths leaf (List.mem_append_left _ hleaf)
    have hbeneath : PrefixFree (beneath key _) := h.beneath
    rw [beneath_append] at hbeneath
    rw [ofLeaves_append, beneath_append]
    cases path with
    | nil => exact absurd rfl (hpaths ([], v) (by simp))
    | cons k path =>
      rw [beneath_singleton] at hbeneath ⊢
      by_cases hk : k = key
      · subst hk
        rw [if_pos rfl] at hbeneath ⊢
        have hother := (List.pairwise_append.1 hbeneath).2.2
        cases path with
        | nil =>
          -- Nothing else is at a place where a path ends.
          have hnone : beneath k leaves = [] := List.eq_nil_iff_forall_not_mem.2 fun other hmem =>
            (hother other hmem ([], v) (by simp)).2 List.nil_prefix
          rw [hnone]
          exact Entries.get?_put_self _ _ _
        | cons next path =>
          have hall : ∀ leaf ∈ beneath k leaves, leaf.1 ≠ [] := by
            intro leaf hleaf hnil
            exact (hother leaf hleaf (next :: path, v) (by simp)).1 (hnil ▸ List.nil_prefix)
          rw [graft_of_ne (by simp) (List.forall_mem_append.2 ⟨hall, by simp⟩), ofLeaves_append,
            insertAt, below, ih, Entries.get?_put_self, entries_graft hall]
          simp
      · rw [if_neg hk, List.append_nil, ← ih]
        cases path with
        | nil => exact Entries.get?_put_ne _ _ (Ne.symm hk)
        | cons next path => exact Entries.get?_put_ne _ _ (Ne.symm hk)

/-- A key of a tree is the first part of a path. -/
theorem exists_leaf_of_mem (h : PrefixFree leaves) (hpaths : ∀ leaf ∈ leaves, leaf.1 ≠ [])
    {e : String × Value} (he : e ∈ ofLeaves leaves) : ∃ path v, (e.1 :: path, v) ∈ leaves := by
  rw [← Entries.get?_eq_some_iff (distinct_ofLeaves _), get?_ofLeaves h hpaths] at he
  cases hbelow : beneath e.1 leaves with
  | nil =>
    rw [hbelow] at he
    cases he
  | cons leaf rest =>
    refine ⟨leaf.1, leaf.2, mem_beneath.1 ?_⟩
    rw [hbelow]
    exact List.mem_cons_self

/-! ## Trees that are alike -/

/-- A text or a mapping: all that grows from leaves that are texts. -/
inductive IsNode : Value → Prop where
  | text (s : String) : IsNode (.text s)
  | mapping (es : Entries) : IsNode (.mapping es)

/-- The same text, or nodes under the same keys in some order. -/
inductive SameNode : Value → Value → Prop where
  | text (s : String) : SameNode (.text s) (.text s)
  | mapping {es es' : Entries} (distinct : es.Distinct) (nodes : ∀ e ∈ es, IsNode e.2)
      (perm : es.Perm es') : SameNode (.mapping es) (.mapping es')

/-- The trees are the same up to the order of the entries on their two upper levels. -/
def Alike (tree tree' : Entries) : Prop :=
  ∃ mid, tree.Perm mid ∧ List.Forall₂ (fun e e' => e.1 = e'.1 ∧ SameNode e.2 e'.2) mid tree'

/-- All leaves are texts, and no path goes on where another one ends. -/
structure Separate (leaves : Leaves) : Prop where
  free : PrefixFree leaves
  texts : ∀ leaf ∈ leaves, ∃ s, leaf.2 = .text s

theorem Separate.beneath (h : Separate leaves) : Separate (beneath key leaves) where
  free := h.free.beneath
  texts leaf hleaf := h.texts (key :: leaf.1, leaf.2) (mem_beneath.1 hleaf)

theorem isNode_graft (h : Separate leaves) (hv : graft leaves = some v) : IsNode v := by
  rcases h.free.cases with rfl | ⟨w, rfl⟩ | ⟨hne, hpaths⟩
  · cases hv
  · obtain ⟨s, rfl⟩ : ∃ s, w = .text s := h.texts ([], w) List.mem_cons_self
    cases hv
    exact .text s
  · rw [graft_of_ne hne hpaths] at hv
    cases hv
    exact .mapping _

theorem graft_alike (h : Separate leaves) (hperm : leaves.Perm leaves')
    (hkept : ∀ k, beneath k leaves = beneath k leaves') :
    Option.Rel SameNode (graft leaves) (graft leaves') := by
  rcases h.free.cases with rfl | ⟨w, rfl⟩ | ⟨hne, hpaths⟩
  · obtain rfl := List.nil_perm.1 hperm
    exact .none
  · obtain ⟨s, rfl⟩ : ∃ s, w = .text s := h.texts ([], w) List.mem_cons_self
    obtain rfl := List.singleton_perm.1 hperm
    exact .some (.text s)
  · have hpaths' : ∀ leaf ∈ leaves', leaf.1 ≠ [] := fun leaf hleaf =>
      hpaths leaf (hperm.mem_iff.2 hleaf)
    have hne' : leaves' ≠ [] := fun hnil => hne (List.perm_nil.1 (hnil ▸ hperm))
    rw [graft_of_ne hne hpaths, graft_of_ne hne' hpaths']
    have hget := get?_ofLeaves h.free hpaths
    have hget' := get?_ofLeaves (h.free.perm hperm) hpaths'
    refine .some (.mapping (distinct_ofLeaves _) ?_ ?_)
    · intro e he
      rw [← Entries.get?_eq_some_iff (distinct_ofLeaves _), hget] at he
      exact isNode_graft h.beneath he
    · refine Entries.perm_of_get? (distinct_ofLeaves _) (distinct_ofLeaves _) fun k => ?_
      rw [hget, hget', hkept]

/-- Leaves in another order grow into a tree that is alike, if those that agree in the first two
keys of their paths keep their order. -/
theorem alike_of_perm (h : Separate leaves) (hpaths : ∀ leaf ∈ leaves, leaf.1 ≠ [])
    (hperm : leaves.Perm leaves')
    (hkept : ∀ a b, beneath b (beneath a leaves) = beneath b (beneath a leaves')) :
    Alike (ofLeaves leaves) (ofLeaves leaves') := by
  refine Entries.forall₂_of_get? (distinct_ofLeaves _) (distinct_ofLeaves _) fun k => ?_
  rw [get?_ofLeaves h.free hpaths, get?_ofLeaves (h.free.perm hperm) fun leaf hleaf =>
    hpaths leaf (hperm.mem_iff.2 hleaf)]
  exact graft_alike h.beneath (hperm.filterMap _) (hkept k)

end Tree

/-! ## Keys -/

namespace Brackets

/-- The roots of the trees that are read. -/
def roots : List String := ["filter", "filters", "sort"]

/-- The path of a key below a root. -/
def path? (root key : String) : Option (List String) :=
  match readKey? key with
  | some (name, path) => if name = root then some path else none
  | none => none

theorem path?_ne_nil {root key : String} {path : List String} (h : path? root key = some path) :
    path ≠ [] := by
  unfold path? readKey? at h
  simp only at h
  split at h
  · rename_i hread
    split at hread
    · split at hread
      · cases hread
        split at h
        · cases h
          simp
        · cases h
      · cases hread
    · cases hread
  · cases h

/-- The path of one key goes on, below the same root, where that of another one ends. -/
def clash (key other : String) : Bool :=
  roots.any fun root =>
    match path? root key, path? root other with
    | some path, some path' => path.isPrefixOf path'
    | _, _ => false

/-- The root and the first two parts of a key that has so many. -/
def stem? (key : String) : Option (String × String × String) :=
  match readKey? key with
  | some (root, a :: b :: _) => if root ∈ roots then some (root, a, b) else none
  | _ => none

theorem stem?_eq_some {root key a b : String} {path : List String} (hroot : root ∈ roots)
    (h : path? root key = some (a :: b :: path)) : stem? key = some (root, a, b) := by
  unfold path? at h
  unfold stem?
  split at h
  · rename_i hread
    split at h
    · rename_i hname
      cases h
      rw [hread, hname]
      exact if_pos hroot
    · cases h
  · cases h

end Brackets

namespace Params

open RecordQuery.Tree (Leaves beneath ofLeaves)

/-- The leaves that the keys with a root write. -/
def leaves (params : Params) (root : String) : Leaves :=
  params.filterMap fun e => (Brackets.path? root e.1).map fun path => (path, e.2)

variable {params params' : Params} {root : String}

theorem mem_leaves {path : List String} {v : Value} :
    (path, v) ∈ params.leaves root ↔
      ∃ key, (key, v) ∈ params ∧ Brackets.path? root key = some path := by
  simp only [leaves, List.mem_filterMap, Option.map_eq_some_iff, Prod.mk.injEq]
  constructor
  · rintro ⟨⟨key, w⟩, hmem, _, hpath, rfl, rfl⟩
    exact ⟨key, hmem, hpath⟩
  · rintro ⟨key, hmem, hpath⟩
    exact ⟨_, hmem, _, hpath, rfl, rfl⟩

theorem texts_leaves (htexts : ∀ e ∈ params, ∃ s, e.2 = .text s) :
    ∀ leaf ∈ params.leaves root, ∃ s, leaf.2 = .text s := by
  rintro ⟨path, v⟩ hleaf
  obtain ⟨key, hmem, -⟩ := mem_leaves.1 hleaf
  exact htexts _ hmem

/-- Parameters without a mapping for the root form the tree of their leaves. -/
theorem tree_eq_ofLeaves_of_below (hbelow : Tree.below params root = []) :
    params.tree root = ofLeaves (params.leaves root) := by
  rw [tree_eq, hbelow, ofLeaves, leaves, List.foldl_filterMap]
  congr 1
  funext tree e
  unfold grown Brackets.path?
  cases Brackets.readKey? e.1 with
  | none => rfl
  | some found => by_cases h : found.1 = root <;> simp [h]

/-- Parameters that are texts form the tree of their leaves. -/
theorem tree_eq_ofLeaves (htexts : ∀ e ∈ params, ∃ s, e.2 = .text s) (root : String) :
    params.tree root = ofLeaves (params.leaves root) := by
  refine tree_eq_ofLeaves_of_below ?_
  unfold Tree.below
  cases hget : Entries.get? params root with
  | none => rfl
  | some v =>
    obtain ⟨s, rfl⟩ := htexts _ (Json.mem_of_get? hget)
    rfl

/-- The keys differ from each other, and no path goes on where another one ends. -/
structure Clear (keys : List String) : Prop where
  nodup : keys.Nodup
  paths : keys.Pairwise fun key other =>
    Brackets.clash key other = false ∧ Brackets.clash other key = false

/-- Pairs whose keys have the same stem keep their order among each other. -/
def Keeps {α : Type} (pairs pairs' : List (String × α)) : Prop :=
  ∀ p ∈ pairs, Brackets.stem? p.1 ≠ none →
    pairs.filter (fun q => Brackets.stem? q.1 = Brackets.stem? p.1) =
      pairs'.filter fun q => Brackets.stem? q.1 = Brackets.stem? p.1

theorem separate_leaves (hclear : Clear (params.map (·.1)))
    (htexts : ∀ e ∈ params, ∃ s, e.2 = .text s) (hroot : root ∈ Brackets.roots) :
    Tree.Separate (params.leaves root) where
  free := by
    have hpairs := List.pairwise_map.1 hclear.paths
    refine List.Pairwise.filterMap _ (fun e e' hclash leaf hleaf leaf' hleaf' => ?_) hpairs
    obtain ⟨path, hpath, rfl⟩ := Option.map_eq_some_iff.1 hleaf
    obtain ⟨path', hpath', rfl⟩ := Option.map_eq_some_iff.1 hleaf'
    simp only [Brackets.clash, List.any_eq_false] at hclash
    have hone := hclash.1 root hroot
    have hother := hclash.2 root hroot
    rw [hpath, hpath'] at hone hother
    simpa [List.isPrefixOf_iff_prefix] using And.intro hone hother
  texts := texts_leaves htexts

/-- Below two parts, a tree depends on the keys with that stem only. -/
theorem beneath_filter (params : Params) (hroot : root ∈ Brackets.roots) (a b : String) :
    beneath b (beneath a (params.leaves root)) =
      beneath b (beneath a (leaves
        (params.filter fun e => Brackets.stem? e.1 = some (root, a, b)) root)) := by
  simp only [beneath, leaves, List.filterMap_filterMap, List.filterMap_filter]
  refine List.filterMap_congr fun e _ => ?_
  by_cases hstem : Brackets.stem? e.1 = some (root, a, b)
  · rw [if_pos (by simpa using hstem)]
  · rw [if_neg (by simpa using hstem)]
    cases hpath : Brackets.path? root e.1 with
    | none => rfl
    | some path =>
      match path with
      | [] => rfl
      | [k] => by_cases hk : k = a <;> simp [hk]
      | k :: l :: path =>
        by_cases hk : k = a
        · by_cases hl : l = b
          · subst hk hl
            exact absurd (Brackets.stem?_eq_some hroot hpath) hstem
          · simp [hk, hl]
        · simp [hk]

theorem beneath_kept (hperm : params.Perm params') (hkept : Keeps params params')
    (hroot : root ∈ Brackets.roots) (a b : String) :
    beneath b (beneath a (params.leaves root)) =
      beneath b (beneath a (params'.leaves root)) := by
  rw [beneath_filter params hroot, beneath_filter params' hroot]
  by_cases hstem : ∃ e ∈ params, Brackets.stem? e.1 = some (root, a, b)
  · obtain ⟨e, he, hstem⟩ := hstem
    have hsame := hkept e he (by simp [hstem])
    rw [hstem] at hsame
    rw [hsame]
  · have hnone : ∀ e ∈ params, Brackets.stem? e.1 ≠ some (root, a, b) := by simpa using hstem
    rw [List.filter_eq_nil_iff.2 (by simpa using hnone),
      List.filter_eq_nil_iff.2 fun e he => by simpa using hnone e (hperm.mem_iff.2 he)]

theorem distinct_tree (htexts : ∀ e ∈ params, ∃ s, e.2 = .text s) (root : String) :
    (params.tree root).Distinct := by
  rw [tree_eq_ofLeaves htexts]
  exact Tree.distinct_ofLeaves _

theorem path_ne_nil {leaf : List String × Value} (h : leaf ∈ params.leaves root) :
    leaf.1 ≠ [] := by
  obtain ⟨key, -, hpath⟩ := mem_leaves.1 (show (leaf.1, leaf.2) ∈ _ from h)
  exact Brackets.path?_ne_nil hpath

section Trees

variable (hclear : Clear (params.map (·.1))) (htexts : ∀ e ∈ params, ∃ s, e.2 = .text s)
  (hroot : root ∈ Brackets.roots)

include hclear htexts hroot

theorem tree_alike (hperm : params.Perm params') (hkept : Keeps params params') :
    Tree.Alike (params.tree root) (params'.tree root) := by
  rw [tree_eq_ofLeaves htexts, tree_eq_ofLeaves fun e he => htexts e (hperm.mem_iff.2 he)]
  exact Tree.alike_of_perm (separate_leaves hclear htexts hroot) (fun _ => path_ne_nil)
    (hperm.filterMap _) (beneath_kept hperm hkept hroot)

/-- A key of a tree is the first part of the path of a parameter. -/
theorem exists_path_of_mem_tree {e : String × Value} (he : e ∈ params.tree root) :
    ∃ key ∈ params.map (·.1), ∃ path, Brackets.path? root key = some (e.1 :: path) := by
  rw [tree_eq_ofLeaves htexts] at he
  obtain ⟨path, v, hleaf⟩ := Tree.exists_leaf_of_mem (separate_leaves hclear htexts hroot).free
    (fun _ => path_ne_nil) he
  obtain ⟨key, hmem, hpath⟩ := mem_leaves.1 hleaf
  exact ⟨key, List.mem_map.2 ⟨_, hmem, rfl⟩, path, hpath⟩

end Trees

end Params

end RecordQuery
