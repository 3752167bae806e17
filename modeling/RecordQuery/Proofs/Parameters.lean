import RecordQuery.Proofs.Plans

/-!
# A further parameter

A parameter that belongs to no grammar leaves what is read of the filters, the order and the search
as it is. What all grammars share is read again.

* `Params.Aside`: the keys of such parameters.
* `DraftQuery.read_put`: a draft with a further parameter.
* `DraftQuery.withShared_of_read`: a draft holds what its request says of the shared parts.
-/

namespace RecordQuery

theorem Entries.has_put (entries : Entries) {key other : String} (v : Value) (h : other ≠ key) :
    (entries.put key v).has other = entries.has other := by
  have hb : (key == other) = false := by simpa using fun e : key = other => h e.symm
  induction entries with
  | nil => simp [put, has, hb]
  | cons e rest ih =>
    obtain ⟨k, w⟩ := e
    by_cases hk : k = key
    · simp [put, has, hk]
    · simp only [put, hk, if_false, has, List.any_cons]
      exact congrArg (k == other || ·) ih

namespace Params

variable (params : Params) (v : Value)

theorem first_put {key : String} {names : List String} (h : key ∉ names) :
    first (params.put key v) names = first params names := by
  induction names with
  | nil => rfl
  | cons name names ih =>
    have hname : name ≠ key := fun e => h (e ▸ List.mem_cons_self)
    rw [first, first, Entries.get?_put_ne params v hname,
      ih fun hmem => h (List.mem_cons_of_mem _ hmem)]

/-- Where none of the keys had a value, the value of a new one is read, unless it is missing. -/
theorem first_put_of_mem {key : String} {names : List String} (hkey : key ∈ names)
    (hnone : first params names = .null) :
    first (params.put key v) names = if (last v).isMissing then .null else last v := by
  induction names with
  | nil => cases hkey
  | cons name names ih =>
    rw [first] at hnone ⊢
    have hmissing : (last ((params.get? name).getD .null)).isMissing = true := by
      by_contra h
      rw [if_neg h] at hnone
      rw [hnone] at h
      exact h rfl
    rw [if_pos hmissing] at hnone
    by_cases hname : name = key
    · rw [hname, Entries.get?_put_self, Option.getD_some]
      by_cases hmem : key ∈ names
      · rw [ih hmem hnone]
        split <;> rfl
      · rw [first_put params v hmem, hnone]
    · rw [Entries.get?_put_ne params v hname, if_pos hmissing]
      exact ih ((List.mem_cons.1 hkey).resolve_left fun e => hname e.symm) hnone

/-- A key that is no path leaves the trees of all other keys as they are. -/
theorem tree_put {key root : String} (hkey : Brackets.readKey? key = none) (h : root ≠ key) :
    tree (params.put key v) root = tree params root := by
  unfold tree Tree.below
  rw [Entries.get?_put_ne params v h]
  generalize (((params.get? root).bind Value.entries?).getD []) = start
  induction params generalizing start with
  | nil => simp [Entries.put, hkey]
  | cons e rest ih =>
    obtain ⟨k, w⟩ := e
    by_cases hk : k = key
    · simp [Entries.put, hk, hkey]
    · simp only [Entries.put, hk, if_false, List.foldl_cons]
      exact ih _

/-- The keys that a grammar has for itself. -/
def grammarKeys : List String :=
  ["startRow", "endRow", "filterModel", "sortModel", "filters", "filter", "sort", "sortBy",
    "sortDir", "sortOrder", "page", "pageSize", "per_page", "limit", "globalFilter", "search", "q",
    "search_fields", "searchFields"]

/-- The key belongs to no grammar, as it is or as a path. -/
structure Aside (key : String) : Prop where
  path : Brackets.readKey? key = none
  own : key ∉ grammarKeys

namespace Aside

variable {key : String} (h : Aside key)

include h

theorem ne {name : String} (hname : name ∈ grammarKeys) : name ≠ key :=
  fun e => h.own (e ▸ hname)

theorem first_put {names : List String} (hnames : ∀ name ∈ names, name ∈ grammarKeys) :
    first (params.put key v) names = first params names :=
  Params.first_put params v fun hmem => h.own (hnames key hmem)

theorem tree_put {root : String} (hroot : root ∈ grammarKeys) :
    tree (params.put key v) root = tree params root :=
  Params.tree_put params v h.path (h.ne hroot)

theorem searchFields_put : searchFields (params.put key v) = searchFields params := by
  unfold searchFields
  rw [Entries.get?_put_ne params v (h.ne (by decide)),
    Entries.get?_put_ne params v (h.ne (by decide))]

theorem load_put {name : String} (hname : name ∈ grammarKeys) :
    GridModel.load (params.put key v) name = GridModel.load params name := by
  unfold GridModel.load
  rw [Entries.get?_put_ne params v (h.ne hname)]

end Aside

theorem aside_cursor : Aside "cursor" := ⟨by decide +kernel, by decide⟩

/-- The keys under which a request says whether deleted records count. -/
def visibilityKeys : List String := ["includeDeleted", "include_deleted"]

theorem aside_of_mem_visibilityKeys : ∀ key ∈ visibilityKeys, Aside key := by
  simp only [visibilityKeys, List.forall_mem_cons]
  exact ⟨⟨by decide +kernel, by decide⟩, ⟨by decide +kernel, by decide⟩, by simp⟩

end Params

/-! ## Grammars -/

section Grammars

open Params (Aside)

variable (params : Params) (v : Value) {key : String} (h : Aside key)

include h

theorem Grammar.of_put : Grammar.of (params.put key v) = Grammar.of params := by
  unfold Grammar.of
  rw [Entries.has_put params v (h.ne (by decide)), Entries.has_put params v (h.ne (by decide)),
    Entries.has_put params v (h.ne (by decide)), Entries.has_put params v (h.ne (by decide))]

theorem GridModel.filterEntries_put : filterEntries (params.put key v) = filterEntries params := by
  rw [filterEntries, h.load_put params v (by decide)]
  rfl

theorem GridModel.sort_put (fieldKey : String) :
    sort (params.put key v) fieldKey = sort params fieldKey := by
  rw [sort, h.load_put params v (by decide)]
  rfl

theorem RowWindow.filters_put : filters (params.put key v) = filters params := by
  rw [filters, GridModel.filterEntries_put params v h, h.tree_put params v (by decide)]
  rfl

theorem RowWindow.flatSort_put : flatSort (params.put key v) = flatSort params := by
  rw [flatSort, h.tree_put params v (by decide)]
  rfl

theorem DataTable.searchTerm_put (model : Entries) :
    searchTerm (params.put key v) model = searchTerm params model := by
  unfold searchTerm
  rw [h.first_put params v (by decide)]

theorem Simple.filters_put : filters (params.put key v) = filters params := by
  rw [filters, h.tree_put params v (by decide)]
  rfl

theorem Simple.order_put : sortByKeys (params.put key v) ++ sortByList (params.put key v)
    = sortByKeys params ++ sortByList params := by
  unfold sortByKeys sortByList
  rw [h.first_put params v (by decide), h.first_put params v (by decide),
    h.first_put params v (by decide)]

/-- Of a request for a window of rows, only the shared parts are read anew. -/
theorem RowWindow.read_put :
    read (params.put key v) = (read params).map (·.withShared (params.put key v)) := by
  unfold read
  rw [filters_put params v h, GridModel.sort_put params v h, flatSort_put params v h,
    h.first_put params v (by decide), h.first_put params v (by decide),
    h.first_put params v (by decide), h.searchFields_put params v]
  cases filters params with
  | error e => rfl
  | ok filters =>
    cases GridModel.sort params "colId" with
    | error e => rfl
    | ok sort => cases flatSort params <;> rfl

/-- So it is for a table with pages. -/
theorem DataTable.read_put :
    read (params.put key v) = (read params).map (·.withShared (params.put key v)) := by
  unfold read
  rw [GridModel.filterEntries_put params v h, GridModel.sort_put params v h,
    h.first_put params v (by decide), h.first_put params v (by decide),
    h.searchFields_put params v]
  simp only [searchTerm_put params v h]
  cases GridModel.filterEntries params with
  | error e => rfl
  | ok model =>
    change (filters model >>= _) = (filters model >>= _).map _
    cases filters model with
    | error e => rfl
    | ok filters => cases GridModel.sort params "field" <;> rfl

/-- A simple request reads the kind of its slice off the cursor, which is a shared part. -/
theorem Simple.read_put (hcursor : key ∉ ["cursor", "after"]) :
    read (params.put key v) = (read params).withShared (params.put key v) := by
  have hpagination : pagination (params.put key v) = pagination params := by
    unfold pagination
    rw [Params.first_put params v hcursor, h.first_put params v (by decide),
      h.first_put params v (by decide)]
  unfold read
  rw [filters_put params v h, order_put params v h, hpagination, h.first_put params v (by decide),
    h.searchFields_put params v]
  rfl

theorem DraftQuery.read_put (hcursor : key ∉ ["cursor", "after"]) :
    read (params.put key v) = (read params).map (·.withShared (params.put key v)) := by
  unfold read
  rw [Grammar.of_put params v h]
  cases Grammar.of params with
  | rowWindow => exact RowWindow.read_put params v h
  | dataTable => exact DataTable.read_put params v h
  | simple => exact congrArg Except.ok (Simple.read_put params v h hcursor)

end Grammars

/-- To read the shared parts of a draft again changes nothing. -/
theorem DraftQuery.withShared_of_read {params : Params} {draft : DraftQuery}
    (h : read params = .ok draft) : draft.withShared params = draft := by
  unfold read at h
  cases hgrammar : Grammar.of params with
  | rowWindow =>
    simp only [hgrammar, RowWindow.read] at h
    obtain ⟨_, -, h⟩ := bind_eq_ok.1 h
    obtain ⟨_, -, h⟩ := bind_eq_ok.1 h
    obtain ⟨_, -, h⟩ := bind_eq_ok.1 h
    rw [pure_eq_ok] at h
    exact h ▸ rfl
  | dataTable =>
    simp only [hgrammar, DataTable.read] at h
    obtain ⟨_, -, h⟩ := bind_eq_ok.1 h
    obtain ⟨_, -, h⟩ := bind_eq_ok.1 h
    obtain ⟨_, -, h⟩ := bind_eq_ok.1 h
    rw [pure_eq_ok] at h
    exact h ▸ rfl
  | simple =>
    simp only [hgrammar] at h
    cases h
    rfl

end RecordQuery
