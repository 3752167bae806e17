import RecordQuery.Proofs.Criteria
import RecordQuery.Proofs.GridWritings

/-!
# The grammars agree

* `ClientQuery.Gives`: a draft has the criteria of a query.
* `ClientQuery.validated_alike_iff`: the drafts of the three writings are validated alike, their
  slices apart, unless an order is handed over as a bare list.
-/

namespace RecordQuery

namespace ClientQuery

variable (q : ClientQuery) (spelling : Spelling) (models orders : Handing)

/-! ## Drafts of one query -/

/-- The criteria of the draft are those of the query. -/
structure Gives (draft : DraftQuery) : Prop where
  filters : ∀ md : Metadata,
    draft.filters.map md.checkFilter = q.filters.map fun w => md.checkFilter w.draft
  sort : draft.sort = q.sort.flatMap (·.drafts)
  search : draft.search = { term := .text (Params.trimmedText (.text q.search)) }
  includeDeleted : draft.includeDeleted =
    if q.includeDeleted = "" then .null else .text q.includeDeleted

theorem Gives.checkCriteria {q : ClientQuery} {a b : DraftQuery} (ha : q.Gives a) (hb : q.Gives b)
    (v : Validator) : v.checkCriteria a = v.checkCriteria b := by
  unfold Validator.checkCriteria
  rw [ha.filters, hb.filters, ha.sort, hb.sort, ha.search, hb.search, ha.includeDeleted,
    hb.includeDeleted]

theorem gives_gridDrafts (md : Metadata) :
    (q.filters.map (·.gridDraft)).map md.checkFilter =
      q.filters.map fun w => md.checkFilter w.draft := by
  rw [List.map_map]
  exact List.map_congr_left fun w _ => w.checkFilter_gridDraft md

theorem read_simple (page pageSize : Value) :
    ∃ draft, DraftQuery.read (q.simple spelling page pageSize) = .ok draft ∧ q.Gives draft := by
  have hgrammar : Grammar.of (q.simple spelling page pageSize) = .simple := by
    have habsent : ∀ name, '[' ∉ name.toList → (q.unfiltered page pageSize).get? name = none →
        (q.simple spelling page pageSize).has name = false := by
      intro name hname hnone
      rw [Entries.has_eq_isSome, q.get?_simple spelling hname, hnone]
      rfl
    rw [Grammar.of, habsent _ (by decide) rfl, habsent _ (by decide) rfl,
      habsent _ (by decide) rfl, habsent _ (by decide) rfl]
    rfl
  have hsearch : Params.first (q.simple spelling page pageSize) ["search", "q"] =
      if q.search = "" then .null else .text q.search := by
    rw [q.first_simple spelling page pageSize (by decide)]
    exact Params.first_eq_ite rfl rfl
  have hdeleted : Params.first (q.simple spelling page pageSize)
      ["includeDeleted", "include_deleted"] =
        if q.includeDeleted = "" then .null else .text q.includeDeleted := by
    rw [q.first_simple spelling page pageSize (by decide)]
    exact Params.first_eq_ite rfl rfl
  have hfields : Params.searchFields (q.simple spelling page pageSize) = [] := by
    rw [Params.searchFields, q.get?_simple spelling (by decide), q.get?_simple spelling (by decide)]
    rfl
  refine ⟨_, by rw [DraftQuery.read, hgrammar], ⟨fun md => ?_, ?_, ?_, hdeleted⟩⟩
  · change (Simple.filters _).map _ = _
    rw [q.simple_filters, List.map_map]
    rfl
  · exact q.simple_sort spelling page pageSize
  · change DraftSearch.mk (.text (Params.trimmedText (Params.first _ _))) _ = _
    rw [hsearch, hfields, Params.trimmedText_ite]

theorem read_dataTable (page pageSize : Value) (hbare : orders = .bare → q.sort = []) :
    ∃ draft, DraftQuery.read (q.dataTable spelling models orders page pageSize) = .ok draft ∧
      q.Gives draft := by
  have horders : (q.dataTable spelling models orders page pageSize).get? "sortModel" =
      some (orders.hand (.list (q.sort.map (·.entry "field")))) := rfl
  have hsort := q.sort_orders (.inl rfl) horders hbare
  have hread : DataTable.read (q.dataTable spelling models orders page pageSize) = .ok _ :=
    bind_eq_ok.2 ⟨_, q.dataTable_entries spelling models orders page pageSize,
      bind_eq_ok.2 ⟨_, q.filters_items spelling, bind_eq_ok.2 ⟨_, hsort, rfl⟩⟩⟩
  have hsearch : Params.first (q.dataTable spelling models orders page pageSize) ["search", "q"] =
      if q.search = "" then .null else .text q.search := Params.first_eq_ite rfl rfl
  refine ⟨_, hread, q.gives_gridDrafts, rfl, ?_, Params.first_eq_ite rfl rfl⟩
  change DraftSearch.mk (DataTable.searchTerm _ _) _ = _
  rw [DataTable.searchTerm, hsearch, Params.trimmedText_ite]
  have hquick : ∀ term, Value.orElse (.text term) (.text "") = .text term := by
    intro term
    by_cases hterm : term = ""
    · rw [hterm]
      rfl
    · rw [Value.orElse, if_pos (by simpa [Value.isTruthy] using hterm)]
  exact congrArg (DraftSearch.mk · []) (hquick _)

theorem read_rowWindow (startRow endRow : Value) (hbare : orders = .bare → q.sort = []) :
    ∃ draft, DraftQuery.read (q.rowWindow spelling models orders startRow endRow) = .ok draft ∧
      q.Gives draft := by
  have horders : (q.rowWindow spelling models orders startRow endRow).get? "sortModel" =
      some (orders.hand (.list (q.sort.map (·.entry "colId")))) := rfl
  have hsort := q.sort_orders (.inr rfl) horders hbare
  have hflat :
      RowWindow.flatSort (q.rowWindow spelling models orders startRow endRow) = .ok [] := by
    rw [RowWindow.flatSort, q.tree_rowWindow spelling models orders startRow endRow rfl]
    exact bind_eq_ok.2 ⟨[], rfl, by rw [pure_eq_ok, List.mergeSort_nil, List.map_nil]⟩
  have hread : RowWindow.read (q.rowWindow spelling models orders startRow endRow) = .ok _ :=
    bind_eq_ok.2 ⟨_, q.rowWindow_filters spelling models orders startRow endRow,
      bind_eq_ok.2 ⟨_, hsort, bind_eq_ok.2 ⟨_, hflat, rfl⟩⟩⟩
  have hsearch : Params.first (q.rowWindow spelling models orders startRow endRow)
      ["globalFilter", "search"] = if q.search = "" then .null else .text q.search := by
    change Params.first (q.rowWindow spelling models orders startRow endRow) ["search"] = _
    exact Params.first_eq_ite rfl rfl
  refine ⟨_, hread, q.gives_gridDrafts, List.append_nil _, ?_, Params.first_eq_ite rfl rfl⟩
  change DraftSearch.mk (.text (Params.trimmedText (Params.first _ _))) _ = _
  rw [hsearch, Params.trimmedText_ite]
  rfl

/-- The criteria of an order that is handed over as a bare list make the requests of both grids
malformed. -/
theorem read_dataTable_bare (page pageSize : Value) (hsort : q.sort ≠ []) :
    DraftQuery.read (q.dataTable spelling models .bare page pageSize) =
      .error (.malformed .sortModelNotArray) := by
  have horders : (q.dataTable spelling models .bare page pageSize).get? "sortModel" =
      some (.list (q.sort.map (·.entry "field"))) := rfl
  change DataTable.read _ = _
  rw [DataTable.read, q.dataTable_entries spelling models .bare page pageSize,
    q.sort_bare horders hsort]
  change (DataTable.filters _ >>= _) = _
  rw [q.filters_items spelling]
  rfl

theorem read_rowWindow_bare (startRow endRow : Value) (hsort : q.sort ≠ []) :
    DraftQuery.read (q.rowWindow spelling models .bare startRow endRow) =
      .error (.malformed .sortModelNotArray) := by
  have horders : (q.rowWindow spelling models .bare startRow endRow).get? "sortModel" =
      some (.list (q.sort.map (·.entry "colId"))) := rfl
  change RowWindow.read _ = _
  rw [RowWindow.read, q.rowWindow_filters spelling models .bare startRow endRow,
    q.sort_bare horders hsort]
  rfl

/-- The three writings of a query are read, and validated to one outcome but for their slices,
unless its order is handed over as a bare list and has criteria. This is so for all filters, orders
and searches, however their operands are spelled and the models of the grids are handed over, and
for every validator: what becomes of the criteria does not depend on the grammar. -/
theorem validated_alike_iff (q : ClientQuery) (forSimple forTable forWindow : Spelling)
    (tableModels tableOrders windowModels windowOrders : Handing)
    (page pageSize page' pageSize' startRow endRow : Value) :
    (∃ simple table window,
      DraftQuery.read (q.simple forSimple page pageSize) = .ok simple ∧
      DraftQuery.read (q.dataTable forTable tableModels tableOrders page' pageSize') = .ok table ∧
      DraftQuery.read (q.rowWindow forWindow windowModels windowOrders startRow endRow) =
        .ok window ∧
      ∀ v : Validator, ∃ criteria, ∀ draft ∈ [simple, table, window],
        v.validate draft = criteria >>= v.conclude draft.pagination) ↔
      (tableOrders = .bare ∨ windowOrders = .bare → q.sort = []) := by
  constructor
  · rintro ⟨simple, table, window, -, htable, hwindow, -⟩ hbare
    by_contra hsort
    rcases hbare with rfl | rfl
    · rw [q.read_dataTable_bare forTable tableModels page' pageSize' hsort] at htable
      cases htable
    · rw [q.read_rowWindow_bare forWindow windowModels startRow endRow hsort] at hwindow
      cases hwindow
  · intro hbare
    obtain ⟨simple, hsimple, gsimple⟩ := q.read_simple forSimple page pageSize
    obtain ⟨table, htable, gtable⟩ := q.read_dataTable forTable tableModels tableOrders page'
      pageSize' fun h => hbare (.inl h)
    obtain ⟨window, hwindow, gwindow⟩ := q.read_rowWindow forWindow windowModels windowOrders
      startRow endRow fun h => hbare (.inr h)
    refine ⟨simple, table, window, hsimple, htable, hwindow, fun v =>
      ⟨v.checkCriteria simple, fun draft hdraft => ?_⟩⟩
    have hgives : q.Gives draft := by
      simp only [List.mem_cons, List.not_mem_nil, or_false] at hdraft
      rcases hdraft with rfl | rfl | rfl
      · exact gsimple
      · exact gtable
      · exact gwindow
    rw [v.validate_eq, hgives.checkCriteria gsimple]

/-- Films of two genres about the night, by a text with a comma, a range and an order of two
criteria. -/
def nightFilms : ClientQuery where
  filters := [{ field := "title", operator := .contains, operands := ["night, day"] },
    { field := "rating", operator := .between, operands := ["7", "9.5"] },
    { field := "genre", operator := .isIn, operands := ["drama", "film noir"] }]
  sort := [{ field := "title", direction := .desc }, { field := "genre", direction := .asc }]
  search := "night"

theorem nightFilms_alike :
    nightFilms.sort ≠ [] ∧ ∃ simple table window,
      DraftQuery.read (nightFilms.simple .joined .null .null) = .ok simple ∧
      DraftQuery.read (nightFilms.dataTable .listed .bare .json (.text "0") .null) = .ok table ∧
      DraftQuery.read (nightFilms.rowWindow .joined .repeated .repeated (.text "0") (.text "20")) =
        .ok window ∧
      ∀ v : Validator, ∃ criteria, ∀ draft ∈ [simple, table, window],
        v.validate draft = criteria >>= v.conclude draft.pagination := by
  have hhanded : Handing.json = .bare ∨ Handing.repeated = .bare → nightFilms.sort = [] := by
    rintro (h | h) <;> cases h
  exact ⟨List.cons_ne_nil _ _, (validated_alike_iff nightFilms .joined .listed .joined .bare .json
    .repeated .repeated .null .null (.text "0") .null (.text "0") (.text "20")).2 hhanded⟩

end ClientQuery
end RecordQuery
