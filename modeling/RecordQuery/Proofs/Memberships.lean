import RecordQuery.Proofs.GridWritings
import RecordQuery.Request.Grammar

/-!
# Filters for one of several texts

Grids ask for the rows whose field has one of several texts in three ways: an item of a table, the
condition of a column and the set of a column. The set keeps the texts as they are. The other two
cut them at their commas, as if they had been written into one text of a query string.

* `flatMap_commaParts_eq_iff`: texts stay as they are exactly if all may stand between commas.
* `RowWindow.read_columnRequest`: what a request for rows with an object for a column is read as.
* `Membership`: such a filter, with `inTable` and `inColumn` for its requests.
* `Membership.read_iff`: what the three requests are read as, and when they agree.
-/

namespace RecordQuery

open RecordQuery.Text

/-! ## Texts cut at commas -/

theorem Text.not_mem_of_mem_splitOn {sep : Char} {cs piece : List Char}
    (h : piece ∈ splitOn sep cs) : sep ∉ piece := by
  induction cs generalizing piece with
  | nil =>
    rw [List.mem_singleton.1 h]
    exact List.not_mem_nil
  | cons c cs ih =>
    rw [splitOn] at h
    split at h
    · rcases List.mem_cons.1 h with rfl | h
      · exact List.not_mem_nil
      · exact ih h
    · rename_i hc
      split at h
      · rename_i first rest hsplit
        rcases List.mem_cons.1 h with rfl | h
        · rw [List.mem_cons, not_or]
          refine ⟨Ne.symm hc, ih ?_⟩
          rw [hsplit]
          exact List.mem_cons_self
        · refine ih ?_
          rw [hsplit]
          exact List.mem_cons_of_mem _ h
      · rename_i hsplit
        exact absurd hsplit (splitOn_ne_nil sep cs)

theorem Text.mem_of_mem_stripChars {p : Char → Bool} {c : Char} {cs : List Char}
    (h : c ∈ stripChars p cs) : c ∈ cs := by
  have hdropped := (List.dropWhile_sublist p).subset (List.mem_reverse.1 h)
  exact (List.dropWhile_sublist p).subset (List.mem_reverse.1 hdropped)

/-- Whatever a text is cut into may stand between commas. -/
theorem isPart_of_mem_commaParts {s p : String} (h : Value.text p ∈ Params.commaParts s) :
    IsPart p := by
  obtain ⟨part, hpart, hp⟩ := List.mem_map.1 h
  obtain ⟨hmem, hne⟩ := List.mem_filter.1 hpart
  obtain ⟨piece, hpiece, rfl⟩ := List.mem_map.1 hmem
  cases hp
  refine ⟨?_, ?_, ?_⟩
  · intro hempty
    simp [String.ofList_eq_empty_iff.1 hempty] at hne
  · rw [String.toList_ofList]
    intro hcomma
    exact not_mem_of_mem_splitOn hpiece (mem_of_mem_stripChars hcomma)
  · rw [trim, String.toList_ofList, trimChars_idem]

theorem splitAllCommas_texts (values : List String) :
    Params.splitAllCommas (values.map .text) = values.flatMap Params.commaParts := by
  induction values with
  | nil => rfl
  | cons v values ih =>
    rw [List.map_cons, Params.splitAllCommas, Params.splitCommas, ih, List.flatMap_cons]

/-- Texts are cut into themselves exactly if all of them may stand between commas. -/
theorem flatMap_commaParts_eq_iff {values : List String} :
    values.flatMap Params.commaParts = values.map .text ↔ ∀ v ∈ values, IsPart v := by
  constructor
  · intro h v hv
    have hmem : Value.text v ∈ values.flatMap Params.commaParts := by
      rw [h]
      exact List.mem_map_of_mem hv
    obtain ⟨s, -, hpart⟩ := List.mem_flatMap.1 hmem
    exact isPart_of_mem_commaParts hpart
  · intro h
    rw [← splitAllCommas_texts]
    exact splitCommas_spell h .listed

/-! ## Requests for rows with filters -/

namespace RowWindow

/-- A request for rows that has filters and no order is read. -/
theorem read_of_filters {params : Params} {found : List DraftFilter}
    (hrow : params.has "startRow" = true) (hfilters : filters params = .ok found)
    (hmodel : params.get? "sortModel" = none) (hsort : params.tree "sort" = []) :
    ∃ draft, DraftQuery.read params = .ok draft ∧ draft.filters = found := by
  have hgrammar : Grammar.of params = .rowWindow := by
    rw [Grammar.of, if_pos (.inl hrow)]
  have hload : GridModel.sort params "colId" = .ok [] := by
    rw [GridModel.sort, GridModel.load, hmodel]
    rfl
  have hflat : flatSort params = .ok [] := by
    rw [flatSort, hsort]
    exact bind_eq_ok.2 ⟨[], rfl, by rw [pure_eq_ok, List.mergeSort_nil, List.map_nil]⟩
  have hread : read params = .ok _ :=
    bind_eq_ok.2 ⟨_, hfilters, bind_eq_ok.2 ⟨[], hload, bind_eq_ok.2 ⟨_, hflat, rfl⟩⟩⟩
  rw [DraftQuery.read, hgrammar]
  exact ⟨_, hread, rfl⟩

/-- A request for rows with an object for one column. -/
def columnRequest (models : Handing) (field : String) (object : Entries)
    (startRow endRow : Value) : Params :=
  [("startRow", startRow), ("endRow", endRow),
    ("filterModel", models.hand (.mapping [(field, .mapping object)]))]

/-- The column has the filters of its object, unless nothing remains of its name. -/
theorem read_columnRequest {field : String} {object : Entries} {found : List DraftFilter}
    (hobject : Json.Readable (callRoom - 1) (.mapping object))
    (h : columnFilters (fieldName (.text field)) (.mapping object) = .ok found)
    (models : Handing) (startRow endRow : Value) :
    ∃ draft, DraftQuery.read (columnRequest models field object startRow endRow) = .ok draft ∧
      draft.filters = if fieldName (.text field) = "" then [] else found := by
  have hget : (columnRequest models field object startRow endRow).get? "filterModel" =
      some (models.hand (.mapping [(field, .mapping object)])) := rfl
  have hentries : GridModel.filterEntries (columnRequest models field object startRow endRow) =
      .ok [(field, .mapping object)] := by
    rw [GridModel.filterEntries, GridModel.load_mapping hget
      ⟨⟨hobject, trivial⟩, List.nodup_singleton _⟩]
    rfl
  have hmodel : modelFilters [(field, .mapping object)] =
      .ok (if fieldName (.text field) = "" then [] else found) := by
    have hmapping : (Value.mapping object).entries?.isNone = false := rfl
    rw [modelFilters]
    by_cases hfield : fieldName (.text field) = ""
    · simp only [if_pos hfield]
      rfl
    · simp only [if_neg hfield, hmapping, h]
      exact congrArg Except.ok (List.append_nil found)
  have hkeys : ∀ key ∈ ["startRow", "endRow", "filterModel"], Brackets.readKey? key = none := by
    decide +kernel
  have htree : ∀ root, (columnRequest models field object startRow endRow).get? root = none →
      (columnRequest models field object startRow endRow).tree root = [] :=
    fun _ hroot => Params.tree_eq_nil hkeys hroot
  refine read_of_filters rfl ?_ rfl (htree "sort" rfl)
  rw [filters, hentries, htree "filters" rfl]
  refine bind_eq_ok.2 ⟨_, rfl, bind_eq_ok.2 ⟨_, hmodel, bind_eq_ok.2 ⟨[], rfl, ?_⟩⟩⟩
  rw [pure_eq_ok, List.append_nil]

end RowWindow

/-! ## Memberships -/

/-- Texts of which a field is to have one. -/
structure Membership where
  field : String
  values : List String
  field_ne : fieldName (.text field) ≠ "" := by decide
  values_ne : values ≠ [] := by decide

namespace Membership

variable (m : Membership) (models : Handing)

def texts : Value := .list (m.values.map .text)

/-- The filter with the texts as they are. -/
def draft : DraftFilter :=
  { field := fieldName (.text m.field), operator := "in", value := m.texts }

/-- The filter with what the texts are cut into. -/
def cutDraft : DraftFilter :=
  { m.draft with value := .list (m.values.flatMap Params.commaParts) }

def item : Entries :=
  [("field", .text m.field), ("operator", .text "isAnyOf"), ("value", m.texts)]

def condition : Entries := [("type", .text "in"), ("filter", m.texts)]

def set : Entries := [("filterType", .text "set"), ("values", m.texts)]

def inTable (page pageSize : Value) : Params :=
  [("page", page), ("pageSize", pageSize),
    ("filterModel", models.hand (.mapping [("items", .list [.mapping m.item])]))]

/-- A request for rows with an object for the column. -/
def inColumn (object : Entries) (startRow endRow : Value) : Params :=
  [("startRow", startRow), ("endRow", endRow),
    ("filterModel", models.hand (.mapping [(m.field, .mapping object)]))]

theorem field_ne_empty : m.field ≠ "" := by
  intro h
  have hfield := m.field_ne
  rw [h] at hfield
  exact hfield rfl

theorem readable_texts (room : Nat) : Json.Readable (room + 1) m.texts :=
  Json.readableList_map fun _ _ => trivial

/-! ## Filters -/

theorem operand_texts : DataTable.operand "in" m.texts = m.cutDraft.value :=
  congrArg Value.list (splitAllCommas_texts m.values)

theorem itemFilter_item : DataTable.itemFilter (.mapping m.item) = .ok [m.cutDraft] := by
  have hfield : GridModel.entry m.item "field" = .text m.field := rfl
  have hoperator : GridModel.entry m.item "operator" = .text "isAnyOf" := rfl
  have hvalue : GridModel.entry m.item "value" = m.texts := rfl
  have hname : ∀ other,
      fieldName (Value.orElse (.text m.field) other) = fieldName (.text m.field) :=
    fun _ => fieldName_orElse fun h => absurd h m.field_ne_empty
  have hin : ∀ other, canonicalOperator (Value.orElse (.text "isAnyOf") other) = "in" :=
    fun _ => by with_unfolding_all rfl
  have hfinished : DataTable.isUnfinished m.texts = false := by
    obtain ⟨v, rest, hvalues⟩ := List.exists_cons_of_ne_nil m.values_ne
    rw [texts, hvalues]
    rfl
  simp only [DataTable.itemFilter, hfield, hoperator, hvalue, hname, hin, hfinished, m.field_ne,
    operand_texts, Bool.false_eq_true, false_and, or_self, if_false]
  rfl

theorem columnFilters_condition :
    RowWindow.columnFilters (fieldName (.text m.field)) (.mapping m.condition) =
      .ok [m.cutDraft] := by
  have htype : GridModel.entry m.condition "type" = .text "in" := rfl
  have hin : ∀ other, canonicalOperator (Value.orElse (.text "in") other) = "in" :=
    fun _ => by with_unfolding_all rfl
  have hoperands : RowWindow.operands "in" m.condition = m.cutDraft.value := m.operand_texts
  have hplain : RowWindow.plainFilter (fieldName (.text m.field)) m.condition = .ok m.cutDraft := by
    have hset : RowWindow.isSet m.condition = false := rfl
    simp only [RowWindow.plainFilter, hset, htype, hin, hoperands]
    rfl
  rw [RowWindow.columnFilters, show RowWindow.conditions? _ m.condition = none from rfl, hplain]
  rfl

theorem columnFilters_set :
    RowWindow.columnFilters (fieldName (.text m.field)) (.mapping m.set) = .ok [m.draft] := by
  have hvalues : RowWindow.setValues m.set = .ok (m.values.map .text) := by
    obtain ⟨v, rest, hvalues⟩ := List.exists_cons_of_ne_nil m.values_ne
    rw [RowWindow.setValues, set, texts, hvalues]
    rfl
  have hplain : RowWindow.plainFilter (fieldName (.text m.field)) m.set = .ok m.draft := by
    have hset : RowWindow.isSet m.set = true := by with_unfolding_all rfl
    rw [RowWindow.plainFilter, if_pos hset, hvalues]
    rfl
  rw [RowWindow.columnFilters, show RowWindow.conditions? _ m.set = none from rfl, hplain]
  rfl

/-! ## Drafts of requests -/

theorem read_inTable (page pageSize : Value) :
    ∃ draft, DraftQuery.read (m.inTable models page pageSize) = .ok draft ∧
      draft.filters = [m.cutDraft] := by
  have hget : (m.inTable models page pageSize).get? "filterModel" =
      some (models.hand (.mapping [("items", .list [.mapping m.item])])) := rfl
  have hreadable : Json.Readable (callRoom - 2) (.mapping m.item) :=
    ⟨⟨trivial, trivial, m.readable_texts _, trivial⟩, by simp [item]⟩
  have hentries : GridModel.filterEntries (m.inTable models page pageSize) =
      .ok [("items", .list [.mapping m.item])] := by
    rw [GridModel.filterEntries, GridModel.load_mapping hget
      ⟨⟨⟨hreadable, trivial⟩, trivial⟩, List.nodup_singleton _⟩]
    rfl
  have hfilters : DataTable.filters [("items", .list [.mapping m.item])] = .ok [m.cutDraft] := by
    -- A single item need not be joined to others.
    have hitems : DataTable.filters [("items", .list [.mapping m.item])] =
        DataTable.itemFilters [.mapping m.item] := rfl
    rw [hitems, DataTable.itemFilters, m.itemFilter_item]
    rfl
  have hread : DataTable.read (m.inTable models page pageSize) = .ok _ :=
    bind_eq_ok.2 ⟨_, hentries, bind_eq_ok.2 ⟨_, hfilters, bind_eq_ok.2 ⟨[], rfl, rfl⟩⟩⟩
  exact ⟨_, hread, rfl⟩

/-- The column's object makes the only filter of a request for rows. -/
theorem read_inColumn {object : Entries} {d : DraftFilter}
    (hobject : Json.Readable (callRoom - 1) (.mapping object))
    (h : RowWindow.columnFilters (fieldName (.text m.field)) (.mapping object) = .ok [d])
    (startRow endRow : Value) :
    ∃ draft, DraftQuery.read (m.inColumn models object startRow endRow) = .ok draft ∧
      draft.filters = [d] := by
  obtain ⟨draft, hdraft, hfilters⟩ :=
    RowWindow.read_columnRequest hobject h models startRow endRow
  exact ⟨draft, hdraft, hfilters.trans (if_neg m.field_ne)⟩

theorem cutDraft_eq_draft_iff : m.cutDraft = m.draft ↔ ∀ v ∈ m.values, IsPart v := by
  rw [← flatMap_commaParts_eq_iff]
  constructor
  · intro h
    exact Value.list.inj (congrArg DraftFilter.value h)
  · intro h
    rw [cutDraft, h]
    rfl

/-- All three requests for the members of a field are read, with their models decoded or as JSON.
The set keeps the texts; the item and the condition cut them, and agree with the set exactly if all
of the texts may stand between commas. -/
theorem read_iff (m : Membership) (tableModels conditionModels setModels : Handing)
    (page pageSize startRow endRow startRow' endRow' : Value) :
    ∃ table condition set,
      DraftQuery.read (m.inTable tableModels page pageSize) = .ok table ∧
      DraftQuery.read (m.inColumn conditionModels m.condition startRow endRow) = .ok condition ∧
      DraftQuery.read (m.inColumn setModels m.set startRow' endRow') = .ok set ∧
      set.filters = [m.draft] ∧ table.filters = [m.cutDraft] ∧ condition.filters = [m.cutDraft] ∧
      (m.cutDraft = m.draft ↔ ∀ v ∈ m.values, IsPart v) := by
  have hcondition : Json.Readable (callRoom - 1) (.mapping m.condition) :=
    ⟨⟨trivial, m.readable_texts _, trivial⟩, by simp [condition]⟩
  have hset : Json.Readable (callRoom - 1) (.mapping m.set) :=
    ⟨⟨trivial, m.readable_texts _, trivial⟩, by simp [set]⟩
  obtain ⟨table, htable, htableFilters⟩ := m.read_inTable tableModels page pageSize
  obtain ⟨condition, hread, hfilters⟩ := m.read_inColumn conditionModels hcondition
    m.columnFilters_condition startRow endRow
  obtain ⟨set, hsetRead, hsetFilters⟩ := m.read_inColumn setModels hset m.columnFilters_set
    startRow' endRow'
  exact ⟨table, condition, set, htable, hread, hsetRead, hsetFilters, htableFilters, hfilters,
    m.cutDraft_eq_draft_iff⟩

/-- A title with a comma. -/
def tigerAndDragon : Membership where
  field := "title"
  values := ["Crouching Tiger, Hidden Dragon"]

theorem tigerAndDragon_cut :
    ∃ table set,
      DraftQuery.read (tigerAndDragon.inTable .json (.text "0") (.text "20")) = .ok table ∧
      DraftQuery.read (tigerAndDragon.inColumn .json tigerAndDragon.set (.text "0") (.text "20")) =
        .ok set ∧
      set.filters = [⟨"title", "in", .list [.text "Crouching Tiger, Hidden Dragon"]⟩] ∧
      table.filters = [⟨"title", "in", .list [.text "Crouching Tiger", .text "Hidden Dragon"]⟩] ∧
      tigerAndDragon.cutDraft ≠ tigerAndDragon.draft := by
  obtain ⟨table, -, set, htable, -, hset, hsetFilters, htableFilters, -, hiff⟩ :=
    tigerAndDragon.read_iff .json .json .json (.text "0") (.text "20") (.text "0") (.text "20")
      (.text "0") (.text "20")
  refine ⟨table, set, htable, hset, hsetFilters, htableFilters.trans ?_, ?_⟩
  · with_unfolding_all rfl
  · rw [ne_eq, hiff]
    decide +kernel

end Membership
end RecordQuery
