import RecordQuery.Proofs.Trees
import RecordQuery.Proofs.Verdicts

/-!
# Requests in any order

Of parameters in another order the same draft is read, but for the order of its filters.

* `Params.Unambiguous`: keys of which no two name the same thing in different words, and
  `Params.alike_of_perm`: under such keys a reader finds the same in every order.
* `RowWindow.flatFilters_perm`, `RowWindow.flatSort_eq`: what is read of trees that are alike.
* `DraftQuery.read_reordered`: the drafts are the same up to the order of their filters.
-/

namespace RecordQuery

/-! ## Parameters -/

/-- The number of a key of an order. -/
def RowWindow.index? (key : String) : Option Int :=
  if key = "" ∨ !key.toList.all Text.isDigit then none else Number.readInt key.toList

namespace Params

/-- The same is found in the parameters, and the criteria of their orders have numbers of their
own. -/
structure Alike (params params' : Params) : Prop where
  get?_eq : ∀ key, params.get? key = params'.get? key
  length_eq : params.length = params'.length
  trees : ∀ root ∈ Brackets.roots, Tree.Alike (params.tree root) (params'.tree root)
  indices : (params.tree "sort").Pairwise fun e e' => ∀ n,
    RowWindow.index? e.1 = some n → RowWindow.index? e'.1 ≠ some n

/-- The number of the criterion that a key belongs to, as it is written and as a number. -/
def number? (key : String) : Option (String × Int) :=
  match Brackets.path? "sort" key with
  | some (part :: _) => (RowWindow.index? part).map fun n => (part, n)
  | _ => none

/-- Keys of which no two name the same thing in different words: no path is part of another one, and
every criterion of the order has its number written in one way. -/
structure Unambiguous (keys : List String) : Prop extends Clear keys where
  numbers : ∀ i ∈ keys.filterMap number?, ∀ j ∈ keys.filterMap number?, i.2 = j.2 → i.1 = j.1

/-- Texts under such keys are read alike in every order that keeps those with one stem in theirs. -/
theorem alike_of_perm {params params' : Params} (hkeys : Unambiguous (params.map (·.1)))
    (htexts : ∀ e ∈ params, ∃ s, e.2 = .text s) (hperm : params.Perm params')
    (hkept : Keeps params params') : params.Alike params' where
  get?_eq := Entries.get?_perm hkeys.nodup hperm
  length_eq := hperm.length_eq
  trees _ hroot := tree_alike hkeys.toClear htexts hroot hperm hkept
  indices := by
    have hsort : "sort" ∈ Brackets.roots := by decide
    have hdistinct := List.pairwise_map.1 (distinct_tree htexts "sort")
    refine hdistinct.imp_of_mem fun he he' hne n hn hn' => hne ?_
    have hnumber : ∀ {e : String × Value}, e ∈ params.tree "sort" →
        RowWindow.index? e.1 = some n → (e.1, n) ∈ (params.map (·.1)).filterMap number? := by
      intro e he hn
      obtain ⟨key, hkey, path, hpath⟩ := exists_path_of_mem_tree hkeys.toClear htexts hsort he
      refine List.mem_filterMap.2 ⟨key, hkey, ?_⟩
      rw [number?, hpath]
      simp only [hn, Option.map_some]
    exact hkeys.numbers _ (hnumber he hn) _ (hnumber he' hn') rfl

variable {params params' : Params} (h : params.Alike params')

include h

theorem Alike.first_eq : first params = first params' := by
  funext names
  induction names with
  | nil => rfl
  | cons name names ih => rw [first, first, h.get?_eq, ih]

theorem Alike.searchFields_eq : searchFields params = searchFields params' := by
  unfold searchFields
  rw [h.get?_eq, h.get?_eq]

theorem Alike.load_eq : GridModel.load params = GridModel.load params' := by
  funext name
  unfold GridModel.load
  rw [h.get?_eq]

theorem Alike.grammar_eq : Grammar.of params = Grammar.of params' := by
  unfold Grammar.of
  simp only [Entries.has_eq_isSome, h.get?_eq]

theorem Alike.withShared_eq (draft : DraftQuery) :
    draft.withShared params = draft.withShared params' := by
  unfold DraftQuery.withShared
  rw [h.first_eq, h.length_eq]

end Params

/-! ## Lists that are made of trees -/

namespace Tree.Alike

variable {ε α : Type} {tree tree' : Entries} (h : Tree.Alike tree tree')

include h

theorem exists_same {e : String × Value} (he : e ∈ tree) : ∃ v, SameNode e.2 v := by
  obtain ⟨mid, hperm, hsame⟩ := h
  obtain ⟨e', -, -, hnode⟩ := exists_of_mem_left hsame (hperm.mem_iff.1 he)
  exact ⟨e'.2, hnode⟩

/-- Where a list is made of the entries of a tree, alike trees make it in another order. -/
theorem flatMap_perm {f : String × Value → List α}
    (hf : ∀ k v v', SameNode v v' → (f (k, v)).Perm (f (k, v'))) :
    (tree.flatMap f).Perm (tree'.flatMap f) := by
  obtain ⟨mid, hperm, hsame⟩ := h
  refine (hperm.flatMap_right f).trans (List.Perm.flatten_congr ?_)
  rw [List.forall₂_map_left_iff, List.forall₂_map_right_iff]
  refine hsame.imp ?_
  rintro ⟨k, v⟩ ⟨_, v'⟩ ⟨rfl, hnode⟩
  exact hf k v v' hnode

/-- So it is where a computation has no result for some entry, if it fails in one way only. -/
theorem mapM_perm {f : String × Value → Except ε α} {P : ε → Prop}
    (hf : ∀ k v v', SameNode v v' → f (k, v) = f (k, v'))
    (hP : ∀ e ∈ tree, ∀ error, f e = .error error → P error) :
    Paired (fun error error' => P error ∧ P error') List.Perm (tree.mapM f) (tree'.mapM f) := by
  obtain ⟨mid, hperm, hsame⟩ := h
  have hmid : mid.map f = tree'.map f := by
    refine map_eq_of_forall₂ (hsame.imp ?_)
    rintro ⟨k, v⟩ ⟨_, v'⟩ ⟨rfl, hnode⟩
    exact hf k v v' hnode
  have hmapM (es : Entries) : es.mapM f = (es.map f).mapM id := by
    rw [List.mapM_map]
    rfl
  rw [hmapM tree', ← hmid, ← hmapM]
  exact RecordQuery.mapM_perm hperm hP

end Tree.Alike

/-! ## Filters -/

section Simple

variable {params params' : Params} (h : params.Alike params')

include h

theorem Simple.filters_perm : (filters params).Perm (filters params') := by
  refine (h.trees "filter" (by decide)).flatMap_perm fun k v v' hnode => ?_
  simp only
  split
  · exact .nil
  · cases hnode with
    | text s => exact .refl _
    | mapping _ _ hperm => exact hperm.map _

end Simple

namespace RowWindow

open RecordQuery.Tree (IsNode SameNode)

variable {spec spec' : Entries}

theorem entry_congr (hget : ∀ k, spec.get? k = spec'.get? k) :
    GridModel.entry spec = GridModel.entry spec' := by
  funext key
  rw [GridModel.entry, hget, GridModel.entry]

/-- An object without lists is no group. -/
theorem conditions?_eq_none (hnodes : ∀ e ∈ spec, IsNode e.2) (field : String) :
    conditions? field spec = none := by
  induction spec with
  | nil => rfl
  | cons e spec ih =>
    obtain ⟨hnode, hrest⟩ := List.forall_mem_cons.1 hnodes
    obtain ⟨key, v⟩ := e
    unfold conditions?
    split
    · cases v with
      | list => cases hnode
      | _ => rfl
    · exact ih hrest

theorem isNode_entry (hnodes : ∀ e ∈ spec, IsNode e.2) (key : String) :
    GridModel.entry spec key = .null ∨ IsNode (GridModel.entry spec key) := by
  unfold GridModel.entry
  cases hget : spec.get? key with
  | none => exact .inl rfl
  | some v => exact .inr (hnodes _ (Json.mem_of_get? hget))

theorem setValues_ok (hnodes : ∀ e ∈ spec, IsNode e.2) : ∃ values, setValues spec = .ok values := by
  have hmembers : ∃ values,
      ((GridModel.entry spec "values").orElse (.list [])).members? = some values := by
    unfold Value.orElse
    split
    · rcases isNode_entry hnodes "values" with hnull | hnode
      · rename_i htruthy
        rw [hnull] at htruthy
        cases htruthy
      · generalize GridModel.entry spec "values" = v at hnode
        cases hnode with
        | text s => exact ⟨_, rfl⟩
        | mapping es => exact ⟨_, rfl⟩
    · exact ⟨[], rfl⟩
  obtain ⟨values, hvalues⟩ := hmembers
  refine ⟨values, ?_⟩
  rw [setValues, hvalues]

/-- An object without lists describes one filter. -/
theorem columnFilters_ok (hnodes : ∀ e ∈ spec, IsNode e.2) (field : String) :
    ∃ filter, columnFilters field (.mapping spec) = .ok [filter] ∧ filter.field = field := by
  rw [columnFilters, conditions?_eq_none hnodes]
  simp only [plainFilter]
  split
  · obtain ⟨values, hvalues⟩ := setValues_ok hnodes
    rw [hvalues]
    exact ⟨_, rfl, rfl⟩
  · exact ⟨_, rfl, rfl⟩

/-- It matters what is found in such an object, and not in which order. -/
theorem columnFilters_congr (hnodes : ∀ e ∈ spec, IsNode e.2) (hnodes' : ∀ e ∈ spec', IsNode e.2)
    (hget : ∀ k, spec.get? k = spec'.get? k) (field : String) :
    columnFilters field (.mapping spec) = columnFilters field (.mapping spec') := by
  rw [columnFilters, columnFilters, conditions?_eq_none hnodes, conditions?_eq_none hnodes']
  unfold plainFilter isSet setValues operands
  rw [entry_congr hget, hget, hget]

theorem lastEntries_eq_self (hnodes : ∀ e ∈ spec, IsNode e.2) : lastEntries spec = spec := by
  refine (List.map_congr_left ?_).trans (List.map_id _)
  rintro ⟨key, v⟩ he
  cases hnodes _ he <;> rfl

/-- The filters of an entry of the tree. -/
def flatEntry (e : String × Value) : Except ParseError (List DraftFilter) :=
  match e.2 with
  | .mapping spec =>
    let field := fieldName (.text e.1)
    if field = "" ∨ isUnfinished (lastEntries spec) then .ok []
    else columnFilters field (.mapping (lastEntries spec))
  | _ => .ok []

theorem flatFilters_eq (tree : Entries) :
    flatFilters tree = (tree.mapM flatEntry).map List.flatten := by
  refine append_eq_mapM (g := flatFilters) rfl ?_ tree
  rintro ⟨key, v⟩ rest
  cases v with
  | mapping spec =>
    rw [flatFilters, flatEntry]
    simp only
    split
    · cases flatFilters rest <;> rfl
    · rfl
  | _ =>
    simp only [flatFilters, flatEntry]
    cases flatFilters rest <;> rfl

theorem flatEntry_same (key : String) {v v' : Value} (hnode : SameNode v v') :
    flatEntry (key, v) = flatEntry (key, v') := by
  cases hnode with
  | text s => rfl
  | @mapping spec spec' hdistinct hnodes hperm =>
    have hnodes' : ∀ e ∈ spec', IsNode e.2 := fun e he => hnodes e (hperm.mem_iff.2 he)
    have hget := Entries.get?_perm hdistinct hperm
    have hunfinished : isUnfinished spec = isUnfinished spec' := by
      rw [isUnfinished, isUnfinished, entry_congr hget]
    simp only [flatEntry, lastEntries_eq_self hnodes, lastEntries_eq_self hnodes', hunfinished,
      columnFilters_congr hnodes hnodes' hget]

theorem flatEntry_ok (key : String) {v v' : Value} (hnode : SameNode v v') :
    ∃ filters, flatEntry (key, v) = .ok filters := by
  cases hnode with
  | text s => exact ⟨[], rfl⟩
  | mapping _ hnodes _ =>
    simp only [flatEntry, lastEntries_eq_self hnodes]
    split
    · exact ⟨[], rfl⟩
    · obtain ⟨filter, hfilter, -⟩ := columnFilters_ok hnodes (fieldName (.text key))
      exact ⟨[filter], hfilter⟩

theorem flatFilters_perm {tree tree' : Entries} (h : Tree.Alike tree tree') :
    ∃ filters filters', flatFilters tree = .ok filters ∧ flatFilters tree' = .ok filters' ∧
      filters.Perm filters' := by
  have hpaired := h.mapM_perm (f := flatEntry) (P := fun _ => False)
    (fun k v v' => flatEntry_same k) fun e he error hfails => by
      obtain ⟨v, hnode⟩ := h.exists_same he
      obtain ⟨filters, hfilters⟩ := flatEntry_ok e.1 hnode
      rw [hfilters] at hfails
      cases hfails
  rw [flatFilters_eq, flatFilters_eq]
  generalize tree.mapM flatEntry = found, tree'.mapM flatEntry = found' at hpaired
  -- No entry fails, so that the lists to be put together differ in their order only.
  cases hpaired with
  | error hnone => exact hnone.1.elim
  | ok hperm => exact ⟨_, _, rfl, rfl, hperm.flatten⟩

/-! ## Orders -/

theorem indexedSort_same (key : String) {v v' : Value} (hnode : SameNode v v') :
    indexedSort key v = indexedSort key v' := by
  cases hnode with
  | text s => rfl
  | mapping hdistinct _ hperm =>
    rw [indexedSort, indexedSort, entry_congr (Entries.get?_perm hdistinct hperm)]

/-- The only number that cannot be read is one of digits that are no numerals. -/
theorem indexedSort_fails {key : String} {v : Value} {error : ParseError}
    (h : indexedSort key v = .error error) : error = .fault .unreadable := by
  unfold indexedSort at h
  split at h
  · simp only at h
    split at h
    · cases h
    · split at h <;> cases h
      rfl
  · cases h

/-- A key describes one criterion at most, with its number. -/
theorem indexedSort_eq_ok {key : String} {v : Value} {found : List (Int × DraftSort)}
    (h : indexedSort key v = .ok found) :
    found = [] ∨ ∃ n sort, index? key = some n ∧ found = [(n, sort)] := by
  unfold indexedSort at h
  split at h
  · simp only at h
    split at h
    · cases h
      exact .inl rfl
    · rename_i hskip
      split at h
      · rename_i n hn
        cases h
        refine .inr ⟨n, _, ?_, rfl⟩
        rw [index?, if_neg fun hkey => hskip (hkey.imp_right .inl), hn]
      · cases h
  · cases h
    exact .inl rfl

theorem indexedSorts_eq (tree : Entries) :
    indexedSorts tree = (tree.mapM fun e => indexedSort e.1 e.2).map List.flatten :=
  append_eq_mapM (g := indexedSorts) rfl (fun _ _ => rfl) tree

theorem index_of_mem {tree : Entries} {found : List (Int × DraftSort)}
    (h : indexedSorts tree = .ok found) : ∀ p ∈ found, ∃ e ∈ tree, index? e.1 = some p.1 := by
  rw [indexedSorts_eq, map_eq_ok] at h
  obtain ⟨lists, hlists, rfl⟩ := h
  intro p hp
  obtain ⟨list, hlist, hp⟩ := List.mem_flatten.1 hp
  obtain ⟨e, he, hfound⟩ := exists_of_mem_right (mapM_eq_ok.1 hlists) hlist
  rcases indexedSort_eq_ok hfound with rfl | ⟨n, sort, hn, rfl⟩
  · cases hp
  · rw [List.mem_singleton.1 hp]
    exact ⟨e, he, hn⟩

/-- Criteria under keys with different numbers have different numbers. -/
theorem indices_of_indexedSorts {tree : Entries} {found : List (Int × DraftSort)}
    (htree : tree.Pairwise fun e e' => ∀ n, index? e.1 = some n → index? e'.1 ≠ some n)
    (h : indexedSorts tree = .ok found) : found.Pairwise fun p q => p.1 ≠ q.1 := by
  induction tree generalizing found with
  | nil =>
    cases h
    exact .nil
  | cons e rest ih =>
    obtain ⟨hfirst, hrest⟩ := List.pairwise_cons.1 htree
    obtain ⟨xs, hxs, h⟩ := bind_eq_ok.1 h
    obtain ⟨ys, hys, h⟩ := bind_eq_ok.1 h
    cases h
    rcases indexedSort_eq_ok hxs with rfl | ⟨n, sort, hn, rfl⟩
    · exact ih hrest hys
    · refine List.pairwise_cons.2 ⟨fun q hq heq => ?_, ih hrest hys⟩
      obtain ⟨e', he', hn'⟩ := index_of_mem hys q hq
      rw [← heq] at hn'
      exact hfirst e' he' n hn hn'

/-- Criteria with different numbers have one order by their numbers. -/
theorem mergeSort_perm_eq {found found' : List (Int × DraftSort)} (hperm : found.Perm found')
    (hfound : found.Pairwise fun p q => p.1 ≠ q.1) :
    (found.mergeSort fun p q => decide (p.1 ≤ q.1)) =
      found'.mergeSort fun p q => decide (p.1 ≤ q.1) := by
  have hsorted (l : List (Int × DraftSort)) :=
    @List.pairwise_mergeSort _ (fun p q => decide (p.1 ≤ q.1))
      (by simp only [decide_eq_true_eq]; exact fun _ _ _ => Int.le_trans)
      (by simpa using fun a _ b _ => Int.le_total a b) l
  refine List.Perm.eq_of_pairwise ?_ (hsorted found) (hsorted found') ?_
  · intro p q hp hq hpq hqp
    have hp := (List.mergeSort_perm _ _).mem_iff.1 hp
    have hq := hperm.mem_iff.2 ((List.mergeSort_perm _ _).mem_iff.1 hq)
    have hsymm : Std.Symm fun p q : Int × DraftSort => p.1 ≠ q.1 := ⟨fun _ _ => Ne.symm⟩
    by_contra hne
    exact hfound.forall hp hq hne
      (Int.le_antisymm (of_decide_eq_true hpq) (of_decide_eq_true hqp))
  · exact (List.mergeSort_perm _ _).trans (hperm.trans (List.mergeSort_perm _ _).symm)

theorem flatSort_eq {params params' : Params} (h : params.Alike params') :
    flatSort params = flatSort params' := by
  have hpaired := (h.trees "sort" (by decide)).mapM_perm
    (f := fun e => indexedSort e.1 e.2) (P := fun error => error = .fault .unreadable)
    (fun k v v' => indexedSort_same k) fun _ _ _ => indexedSort_fails
  have hindices : ∀ found, indexedSorts (params.tree "sort") = .ok found →
      found.Pairwise fun p q => p.1 ≠ q.1 :=
    fun _ => indices_of_indexedSorts h.indices
  unfold flatSort
  rw [indexedSorts_eq] at hindices ⊢
  rw [indexedSorts_eq]
  generalize List.mapM (fun e : String × Value => indexedSort e.1 e.2) (params.tree "sort") = found,
    List.mapM (fun e : String × Value => indexedSort e.1 e.2) (params'.tree "sort") = found'
    at hpaired hindices ⊢
  cases hpaired with
  | error herror => rw [herror.1, herror.2]
  | ok hperm =>
    have hsorted := mergeSort_perm_eq hperm.flatten (hindices _ rfl)
    exact congrArg (fun sorted : List (Int × DraftSort) => Except.ok (sorted.map (·.2))) hsorted

end RowWindow

/-! ## Drafts -/

/-- The draft with its filters in another order. -/
def DraftQuery.Reordered (draft draft' : DraftQuery) : Prop :=
  ∃ filters, draft.filters.Perm filters ∧ draft' = { draft with filters }

section Drafts

variable {params params' : Params} (h : params.Alike params')

include h

theorem Simple.read_reordered : (read params).Reordered (read params') := by
  refine ⟨filters params', filters_perm h, ?_⟩
  unfold read sortByKeys sortByList pagination
  rw [h.withShared_eq, h.first_eq, h.searchFields_eq]
  rfl

theorem DataTable.read_eq : read params = read params' := by
  unfold read GridModel.filterEntries GridModel.sort searchTerm
  rw [h.load_eq, h.first_eq, h.searchFields_eq]
  simp only [h.withShared_eq]

theorem RowWindow.filters_perm : Matched List.Perm (filters params) (filters params') := by
  obtain ⟨flat, flat', hflat, hflat', hperm⟩ := flatFilters_perm (h.trees "filters" (by decide))
  unfold filters GridModel.filterEntries
  rw [h.load_eq, hflat, hflat']
  refine Matched.bind_same _ fun model => ?_
  refine Matched.bind_same _ fun modelled => ?_
  exact .ok (hperm.append_left modelled)

theorem RowWindow.read_reordered :
    Matched DraftQuery.Reordered (read params) (read params') := by
  refine (filters_perm h).bind fun filters filters' hperm => ?_
  unfold GridModel.sort
  rw [h.load_eq, h.first_eq, h.searchFields_eq, flatSort_eq h]
  refine Matched.bind_same _ fun sort => ?_
  refine Matched.bind_same _ fun flat => ?_
  refine .ok ⟨filters', hperm, ?_⟩
  rw [h.withShared_eq]
  rfl

theorem DraftQuery.read_reordered : Matched Reordered (read params) (read params') := by
  unfold read
  rw [h.grammar_eq]
  cases Grammar.of params' with
  | rowWindow => exact RowWindow.read_reordered h
  | dataTable =>
    rw [DataTable.read_eq h]
    exact .refl (fun draft => ⟨_, .refl _, rfl⟩) _
  | simple => exact .ok (Simple.read_reordered h)

end Drafts

end RecordQuery
