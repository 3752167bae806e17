import RecordQuery.Execution
import RecordQuery.Proofs.RowOrder
import RecordQuery.Proofs.Selection

/-!
# Records of a model

* `Table.Sound`: the cells of a table have the forms in which a store keeps them.
* `Keyed`: rows that a key tells apart.
* `Executor.predicates_eq_ok`, `Executor.pageQuery_eq_ok`: the conditions of a query for a slice,
  its order and its bounds.
-/

namespace RecordQuery

open RecordQuery.Store

namespace Store

/-! ## What a store keeps -/

/-- A text, or nothing. -/
def Cell.isTextOrNull : Cell → Bool
  | .null | .text _ => true
  | _ => false

/-- The cells of a table have the forms in which a store keeps them: none is a NaN, and columns of
texts hold no numbers. -/
def Table.Sound (t : Table) : Prop :=
  ∀ row ∈ t.rows, ∀ c ∈ t.columns, (row.cell c.name).isNan = false ∧
    (c.type.affinity = .textual → (row.cell c.name).isTextOrNull = true)

instance (t : Table) : Decidable t.Sound :=
  inferInstanceAs (Decidable (∀ row ∈ t.rows, ∀ c ∈ t.columns, (row.cell c.name).isNan = false ∧
    (c.type.affinity = .textual → (row.cell c.name).isTextOrNull = true)))

/-- No two of the rows have the same key. -/
def Keyed (key : String) (rows : List Row) : Prop :=
  rows.Pairwise fun a b => (a.cell key).order (b.cell key) ≠ .eq

instance (key : String) (rows : List Row) : Decidable (Keyed key rows) :=
  inferInstanceAs (Decidable (rows.Pairwise fun a b => (a.cell key).order (b.cell key) ≠ .eq))

theorem Keyed.filter {key : String} {rows : List Row} (h : Keyed key rows) (p : Row → Bool) :
    Keyed key (rows.filter p) :=
  List.Pairwise.filter p h

/-- Rows that a key tells apart are not level in an order that has the key. -/
theorem Keyed.pairwise_ne {key : String} {rows : List Row} (h : Keyed key rows)
    {keys : List SortKey} {k : SortKey} (hk : k ∈ keys) (hkey : k.column = key)
    (ho : ∀ row ∈ rows, row.Ordered keys) :
    rows.Pairwise fun a b => compareRanks keys a b ≠ .eq := by
  refine List.Pairwise.imp_of_mem ?_ h
  intro a b ha hb hab heq
  have hrank := compareRank_eq_of_compareRanks heq hk
  rw [← Cell.order_eq_compareRank (ho a ha k hk) (ho b hb k hk), hkey] at hrank
  exact hab hrank

theorem Table.type?_eq_some {t : Table} {name : String} {type : ColumnType}
    (h : t.type? name = some type) : ∃ c ∈ t.columns, c.name = name ∧ c.type = type := by
  obtain ⟨c, hc, rfl⟩ := Option.map_eq_some_iff.1 h
  exact ⟨c, List.mem_of_find?_eq_some hc, by simpa using List.find?_some hc, rfl⟩

end Store

/-! ## Queries for slices -/

theorem Metadata.column?_eq_ok {md : Metadata} {name column : String}
    (h : md.column? name = .ok column) : column = name ∧ md.model.hasColumn name = true := by
  unfold Metadata.column? at h
  by_cases hc : md.model.hasColumn name = true
  · simp only [hc, if_true, Except.ok.injEq] at h
    exact ⟨h.symm, hc⟩
  · simp [hc] at h

/-- The unique key is among the criteria of every order in force. -/
theorem Metadata.uniqueKey_mem_effectiveSort (md : Metadata) (requested : List SortCriterion) :
    ∃ s ∈ md.effectiveSort requested, s.field = md.model.uniqueKey := by
  unfold Metadata.effectiveSort
  generalize (if requested.isEmpty then md.model.defaultSort else requested) = base
  by_cases hall : base.all fun s => s.field != md.model.uniqueKey
  · rw [if_pos hall]
    exact ⟨_, List.mem_append_right _ List.mem_cons_self, rfl⟩
  · rw [if_neg hall]
    simpa using hall

theorem Metadata.uniqueKey_mem_sortKeys (md : Metadata) (requested : List SortCriterion) :
    ∃ k ∈ sortKeys (md.effectiveSort requested), k.column = md.model.uniqueKey := by
  obtain ⟨s, hs, hkey⟩ := md.uniqueKey_mem_effectiveSort requested
  exact ⟨⟨s.field, s.direction⟩, List.mem_map_of_mem hs, hkey⟩

namespace Executor

variable {x : Executor}

theorem orderBy_eq_ok {sort : List SortCriterion} {keys : List SortKey}
    (h : x.orderBy sort = .ok keys) :
    keys = sortKeys sort ∧ ∀ s ∈ sort, x.metadata.model.hasColumn s.field = true := by
  have hall := mapM_eq_ok.1 h
  induction hall with
  | nil => exact ⟨rfl, by simp⟩
  | @cons s k sort keys hs _ ih =>
    obtain ⟨column, hcolumn, rfl⟩ := map_eq_ok.1 hs
    obtain ⟨rfl, hhas⟩ := Metadata.column?_eq_ok hcolumn
    obtain ⟨rfl, hrest⟩ := ih (mapM_eq_ok.2 ‹_›)
    refine ⟨rfl, ?_⟩
    intro s' hs'
    rcases List.mem_cons.1 hs' with rfl | hs'
    · exact hhas
    · exact hrest s' hs'

/-- The columns of an order hold no NaNs. -/
theorem ordered_of_sound {t : Table} (hcolumns : t.columns = x.metadata.model.columns)
    (hsound : t.Sound) {sort : List SortCriterion}
    (hsort : ∀ s ∈ sort, x.metadata.model.hasColumn s.field = true) {row : Row}
    (hrow : row ∈ t.rows) : row.Ordered (sortKeys sort) := by
  intro k hk
  obtain ⟨s, hs, rfl⟩ := List.mem_map.1 hk
  obtain ⟨c, hc, hname⟩ := List.any_eq_true.1 (hsort s hs)
  have := (hsound row hrow c (hcolumns ▸ hc)).1
  rwa [beq_iff_eq.1 hname] at this

theorem searchPredicate_eq_ok {s : SearchSpec} {p : Predicate} (h : x.searchPredicate s = .ok p) :
    p = .search s := by
  obtain ⟨_, -, h⟩ := bind_eq_ok.1 h
  rw [pure_eq_ok] at h
  exact h.symm

/-- The conditions are those of the filters, the search, the visibility and the scope. -/
theorem predicates_eq_ok {req : ExecutionRequest} {ps : List Predicate}
    (h : x.predicates req = .ok ps) :
    ∃ filters visibility,
      List.Forall₂ (fun c p => x.filterPredicate c = .ok p) req.spec.filters filters ∧
      x.visibility req.spec = .ok visibility ∧
      ps = filters ++ (req.spec.search.map Predicate.search).toList ++ visibility ++ req.scope := by
  unfold predicates at h
  obtain ⟨filters, hfilters, h⟩ := bind_eq_ok.1 h
  cases hs : req.spec.search with
  | none =>
    simp only [hs] at h
    obtain ⟨search, hsearch, h⟩ := bind_eq_ok.1 h
    obtain ⟨visibility, hvisibility, h⟩ := bind_eq_ok.1 h
    rw [pure_eq_ok] at h hsearch
    subst hsearch
    exact ⟨filters, visibility, mapM_eq_ok.1 hfilters, hvisibility, h.symm⟩
  | some s =>
    simp only [hs] at h
    obtain ⟨search, hsearch, h⟩ := bind_eq_ok.1 h
    obtain ⟨visibility, hvisibility, h⟩ := bind_eq_ok.1 h
    rw [pure_eq_ok] at h
    obtain ⟨p, hp, rfl⟩ := map_eq_ok.1 hsearch
    obtain rfl := searchPredicate_eq_ok hp
    exact ⟨filters, visibility, mapM_eq_ok.1 hfilters, hvisibility, h.symm⟩

/-- The visibility asks for the absence of the time of deletion, or for nothing. -/
theorem visibility_eq_ok {spec : Specification} {ps : List Predicate}
    (h : x.visibility spec = .ok ps) :
    ps = match x.metadata.model.softDeleteField with
      | some field => if spec.includeDeleted then [] else [.isNull field]
      | none => [] := by
  unfold visibility at h
  cases hfield : x.metadata.model.softDeleteField with
  | none =>
    simp only [hfield, Except.ok.injEq] at h
    exact h.symm
  | some field =>
    simp only [hfield] at h
    by_cases hdeleted : spec.includeDeleted = true
    · simp only [hdeleted, if_true, Except.ok.injEq] at h ⊢
      exact h.symm
    · simp only [hdeleted, Bool.false_eq_true, if_false] at h ⊢
      obtain ⟨column, hcolumn, rfl⟩ := map_eq_ok.1 h
      rw [(Metadata.column?_eq_ok hcolumn).1]

theorem pageQuery_eq_ok {req : ExecutionRequest} {sort : List SortCriterion} {q : StoreQuery}
    (h : x.pageQuery req sort = .ok q) :
    ∃ ps after, x.predicates req = .ok ps ∧ x.keyset sort req.spec.pagination = .ok after ∧
      (∀ s ∈ sort, x.metadata.model.hasColumn s.field = true) ∧
      q = {
        predicates := ps
        after
        orderBy := sortKeys sort
        offset := req.spec.pagination.firstRow
        limit := req.spec.pagination.limit + 1
        withTotal := req.needsTotal
        timeout := x.queryTimeout } := by
  unfold pageQuery at h
  obtain ⟨ps, hps, h⟩ := bind_eq_ok.1 h
  obtain ⟨after, hafter, h⟩ := bind_eq_ok.1 h
  obtain ⟨keys, hkeys, h⟩ := bind_eq_ok.1 h
  rw [pure_eq_ok] at h
  obtain ⟨rfl, hsort⟩ := orderBy_eq_ok hkeys
  exact ⟨ps, after, hps, hafter, hsort, h.symm⟩

end Executor
end RecordQuery
