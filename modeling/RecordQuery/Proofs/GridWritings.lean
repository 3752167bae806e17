import RecordQuery.Proofs.Writings

/-!
# Queries as grids write them

A grid hands its filters over in a filter model and its order in a sort model.

* `GridModel.load_mapping`, `load_list`: the models that are read from what is handed over.
* `ClientFilter.itemFilter_item`, `columnFilters_column`: what a filter is read as.
* `ClientQuery.sort_orders`, `sort_bare`: what an order is read as, or why it is refused.
-/

namespace RecordQuery

open RecordQuery.Text

/-! ## Models of grids -/

namespace Json

theorem readableList_map {α : Type} {room : Nat} {f : α → Value} {xs : List α}
    (h : ∀ x ∈ xs, Readable room (f x)) : ReadableList room (xs.map f) := by
  induction xs with
  | nil => exact trivial
  | cons x xs ih =>
    exact ⟨h x List.mem_cons_self, ih fun y hy => h y (List.mem_cons_of_mem _ hy)⟩

theorem readableEntries_map {α : Type} {room : Nat} {key : α → String} {f : α → Value}
    {xs : List α} (h : ∀ x ∈ xs, Readable room (f x)) :
    ReadableEntries room (xs.map fun x => (key x, f x)) := by
  induction xs with
  | nil => exact trivial
  | cons x xs ih =>
    exact ⟨h x List.mem_cons_self, ih fun y hy => h y (List.mem_cons_of_mem _ hy)⟩

/-- The text of a collection begins and ends with its marks. -/
theorem trimChars_chars_mapping (entries : Entries) :
    trimChars (chars (.mapping entries)) = chars (.mapping entries) :=
  stripChars_of_ends (c := '\x7b') (d := '\x7d') (by decide) (by decide) _

theorem trimChars_chars_list (items : List Value) :
    trimChars (chars (.list items)) = chars (.list items) :=
  stripChars_of_ends (c := '[') (d := ']') (by decide) (by decide) _

end Json

namespace GridModel

variable {params : Params} {name : String} {handing : Handing}

theorem load_json {model : Value} (hget : params.get? name = some (.text (Json.write model)))
    (htrim : trimChars (Json.chars model) = Json.chars model) (h : Json.Readable callRoom model) :
    load params name = .ok model := by
  have htrimmed : (Value.text (Json.write model)).trimmed = Json.chars model := by
    rw [Json.write, Value.trimmed, Value.chars, String.toList_ofList, htrim]
    intro hnull
    cases hnull
  obtain ⟨c, cs, hcs, -⟩ := Json.chars_cons [] h
  have hfull : (Json.chars model).isEmpty = false := by
    rw [Json.chars, hcs]
    rfl
  rw [load, hget]
  simp only [Option.getD_some, Params.last, htrimmed, hfull, Json.load_chars h]
  rfl

theorem load_mapping {entries : Entries}
    (hget : params.get? name = some (handing.hand (.mapping entries)))
    (h : Json.Readable callRoom (.mapping entries)) :
    load params name = .ok (.mapping entries) := by
  cases handing with
  | bare => rw [load, hget]; rfl
  | repeated => rw [load, hget]; rfl
  | json => exact load_json hget (Json.trimChars_chars_mapping entries) h

theorem load_list {items : List Value} (hbare : handing ≠ .bare)
    (hget : params.get? name = some (handing.hand (.list items)))
    (h : Json.Readable callRoom (.list items)) : load params name = .ok (.list items) := by
  cases handing with
  | bare => exact absurd rfl hbare
  | repeated => rw [load, hget]; rfl
  | json => exact load_json hget (Json.trimChars_chars_list items) h

end GridModel

namespace ClientFilter

variable (w : ClientFilter) (spelling : Spelling)

theorem readable_value (room : Nat) : Json.Readable (room + 1) (w.value spelling) := by
  have hspell : Json.Readable (room + 1) (spelling.spell w.operands) := by
    cases spelling with
    | joined => exact trivial
    | listed => exact Json.readableList_map fun _ _ => trivial
  unfold value
  split
  · exact hspell
  · exact trivial

theorem readable_item (room : Nat) : Json.Readable (room + 2) (w.item spelling) := by
  unfold item
  split
  · exact ⟨⟨trivial, trivial, trivial⟩, by simp⟩
  · exact ⟨⟨trivial, trivial, w.readable_value spelling room, trivial⟩, by simp⟩

theorem readable_column (room : Nat) : Json.Readable (room + 2) (w.column spelling) := by
  unfold column
  split
  · exact ⟨⟨trivial, trivial, trivial, trivial⟩, by simp⟩
  · exact ⟨⟨trivial, trivial⟩, by simp⟩
  · exact ⟨⟨trivial, w.readable_value spelling room, trivial⟩, by simp⟩

/-- The draft of a filter in a grid, where an operand that is not written is absent. -/
def gridDraft : DraftFilter :=
  if w.operands = [] then { w.draft with value := .null } else w.draft

theorem isValueless_of_nil (h : w.operands = []) : w.operator.isValueless = true := by
  have htakes := w.takes
  rw [h] at htakes
  revert htakes
  cases w.operator <;> decide

/-- Without an operand, both drafts are checked alike. -/
theorem checkFilter_gridDraft (md : Metadata) :
    md.checkFilter w.gridDraft = md.checkFilter w.draft := by
  unfold gridDraft
  split
  · rename_i hnil
    have hvalueless := w.isValueless_of_nil hnil
    unfold Metadata.checkFilter
    have hname : Operator.ofName? w.draft.operator = some w.operator :=
      Operator.ofName?_name w.operator
    simp only [hname, Metadata.operand, hvalueless, if_true]
  · rfl

theorem isMultiValued_of_nil (h : w.operands = []) : isMultiValued w.operator.name = false := by
  have hvalueless := w.isValueless_of_nil h
  revert hvalueless
  cases w.operator <;> decide

theorem canonicalOperator_orElse (op : Operator) (other : Value) :
    canonicalOperator (Value.orElse (.text op.name) other) = op.name := by
  have htruthy : (Value.text op.name).isTruthy = true := by cases op <;> decide
  rw [Value.orElse, if_pos htruthy, canonicalOperator_name]

theorem fieldName_orElse_field (other : Value) :
    fieldName (Value.orElse (.text w.field) other) = w.field := by
  rw [fieldName_orElse fun h => absurd h w.field_ne, w.fieldName_field]

/-- What is written for operands is a value of its own. -/
theorem isUnfinished_value (h : w.operands ≠ []) :
    DataTable.isUnfinished (w.value spelling) = false := by
  have htext : ∀ s, s ≠ "" → DataTable.isUnfinished (.text s) = false := by
    intro s hs
    simp [DataTable.isUnfinished, Value.isMissing, Value.isNull, Value.isEmptyText, hs]
  obtain ⟨s, rest, hoperands⟩ := List.exists_cons_of_ne_nil h
  have hs : s ≠ "" := w.operands_ne s (by rw [hoperands]; exact List.mem_cons_self)
  unfold value
  split
  · cases spelling with
    | listed =>
      rw [Spelling.spell, hoperands]
      rfl
    | joined =>
      have hjoined : joinWith ',' (w.operands.map String.toList) ≠ [] := by
        refine joinWith_ne_nil (by simpa using h) fun piece hpiece => ?_
        obtain ⟨t, ht, rfl⟩ := List.mem_map.1 hpiece
        exact fun hnil => w.operands_ne t ht (String.toList_eq_nil_iff.1 hnil)
      exact htext _ fun hempty => hjoined (by simpa using congrArg String.toList hempty)
  · rw [hoperands]
    exact htext s hs

theorem operand_value :
    DataTable.operand w.operator.name (w.value spelling) = w.draft.value := by
  unfold DataTable.operand value draft
  by_cases hmulti : isMultiValued w.operator.name = true
  · simp only [if_pos hmulti, splitCommas_spell (w.operands_plain hmulti)]
  · simp only [if_neg hmulti]

theorem name_of_isValueless {op : Operator} (h : op.isValueless = true) :
    op.name = "isNull" ∨ op.name = "isNotNull" := by
  revert h
  cases op <;> decide

theorem itemFilter_mapping {item : Entries}
    (hfield : GridModel.entry item "field" = .text w.field)
    (hoperator : GridModel.entry item "operator" = .text w.operator.name)
    (hvalue : DataTable.isUnfinished (GridModel.entry item "value") = true →
      w.operator.isValueless = true) :
    DataTable.itemFilter (.mapping item) = .ok [{
      field := w.field
      operator := w.operator.name
      value := DataTable.operand w.operator.name (GridModel.entry item "value") }] := by
  have hkept : ¬(w.field = "" ∨ (DataTable.isUnfinished (GridModel.entry item "value") = true ∧
      w.operator.name ≠ "isNull" ∧ w.operator.name ≠ "isNotNull")) := by
    rintro (hempty | ⟨hunfinished, hnull, hnotNull⟩)
    · exact w.field_ne hempty
    · exact (name_of_isValueless (hvalue hunfinished)).elim hnull hnotNull
  simp only [DataTable.itemFilter, hfield, hoperator, w.fieldName_orElse_field,
    canonicalOperator_orElse, if_neg hkept]

theorem itemFilter_item :
    DataTable.itemFilter (w.item spelling) = .ok [w.gridDraft] := by
  by_cases hnil : w.operands = []
  · have hitem : w.item spelling =
        .mapping [("field", .text w.field), ("operator", .text w.operator.name)] := by
      rw [item, if_pos hnil]
      rfl
    have hoperand : DataTable.operand w.operator.name .null = .null := by
      rw [DataTable.operand, if_neg (by simp [w.isMultiValued_of_nil hnil])]
    rw [hitem, w.itemFilter_mapping rfl rfl fun _ => w.isValueless_of_nil hnil, gridDraft,
      if_pos hnil]
    exact congrArg (fun v => Except.ok [{ w.draft with value := v }]) hoperand
  · have hitem : w.item spelling = .mapping [("field", .text w.field),
        ("operator", .text w.operator.name), ("value", w.value spelling)] := by
      rw [item, if_neg hnil]
      rfl
    have hfinished := w.isUnfinished_value spelling hnil
    rw [hitem, gridDraft, if_neg hnil]
    refine (w.itemFilter_mapping rfl rfl fun hunfinished => ?_).trans
      (congrArg (fun v => Except.ok [{ w.draft with value := v }]) (w.operand_value spelling))
    exact absurd (hfinished.symm.trans hunfinished) Bool.false_ne_true

theorem columnFilters_mapping {spec : Entries}
    (hconditions : RowWindow.conditions? w.field spec = none) (hset : RowWindow.isSet spec = false)
    (htype : GridModel.entry spec "type" = .text w.operator.name) :
    RowWindow.columnFilters w.field (.mapping spec) = .ok [{
      field := w.field
      operator := w.operator.name
      value := RowWindow.operands w.operator.name spec }] := by
  rw [RowWindow.columnFilters, hconditions]
  simp only [RowWindow.plainFilter, hset, htype, canonicalOperator_orElse]
  rfl

/-- A range has its own entries, every other operand stands under `filter`. -/
theorem column_cases :
    (∃ low high, w.operator = .between ∧ w.operands = [low, high] ∧ w.column spelling = .mapping
      [("type", .text w.operator.name), ("filter", .text low), ("filterTo", .text high)]) ∨
    (w.operands = [] ∧ w.column spelling = .mapping [("type", .text w.operator.name)]) ∨
    (w.operator ≠ .between ∧ w.operands ≠ [] ∧ w.column spelling = .mapping
      [("type", .text w.operator.name), ("filter", w.value spelling)]) := by
  unfold column
  split
  · rename_i low high hop hoperands
    exact .inl ⟨low, high, hop, hoperands, rfl⟩
  · rename_i hnil
    exact .inr (.inl ⟨hnil, rfl⟩)
  · rename_i hnil hrange
    refine .inr (.inr ⟨fun hop => ?_, hnil, rfl⟩)
    have htwo : w.operands.length = 2 := by
      have htakes := w.takes
      rw [hop] at htakes
      exact htakes
    obtain ⟨low, high, hoperands⟩ := List.length_eq_two.1 htwo
    exact hrange low high hop hoperands

theorem columnFilters_column :
    RowWindow.columnFilters w.field (w.column spelling) = .ok [w.gridDraft] := by
  rcases w.column_cases spelling with ⟨low, high, hop, hoperands, hcolumn⟩ | ⟨hnil, hcolumn⟩ |
    ⟨hop, hne, hcolumn⟩
  · rw [hcolumn, gridDraft, if_neg (by simp [hoperands])]
    refine (w.columnFilters_mapping rfl rfl rfl).trans
      (congrArg (fun v => Except.ok [{ w.draft with value := v }]) ?_)
    rw [hop, hoperands]
    rfl
  · rw [hcolumn, gridDraft, if_pos hnil]
    refine (w.columnFilters_mapping rfl rfl rfl).trans
      (congrArg (fun v => Except.ok [{ w.draft with value := v }]) ?_)
    have hname := name_of_isValueless (w.isValueless_of_nil hnil)
    rcases hname with hname | hname <;> rw [hname] <;> rfl
  · rw [hcolumn, gridDraft, if_neg hne]
    refine (w.columnFilters_mapping rfl rfl rfl).trans
      (congrArg (fun v => Except.ok [{ w.draft with value := v }]) ?_)
    change _ = w.draft.value
    have hbetween : w.operator.name ≠ "between" := by
      revert hop
      cases w.operator <;> decide
    rw [← w.operand_value spelling, DataTable.operand, isMultiValued, RowWindow.operands,
      if_neg hbetween]
    by_cases hin : w.operator.name = "in" ∨ w.operator.name = "notIn"
    · rw [if_pos hin, if_pos (by simpa using .inl hin)]
      rfl
    · rw [if_neg hin, if_neg (by simpa [hbetween] using hin)]
      rfl

end ClientFilter

namespace ClientSort

variable (s : ClientSort) {fieldKey : String}

theorem readable_entry (h : fieldKey ≠ "sort") (room : Nat) :
    Json.Readable (room + 1) (s.entry fieldKey) :=
  ⟨⟨trivial, trivial, trivial⟩, by simpa using h⟩

theorem directionOf_name (d : Direction) :
    GridModel.directionOf (.text d.name) = .text d.name := by
  have htruthy : (Value.text d.name).isTruthy = true := by cases d <;> decide
  rw [GridModel.directionOf, Value.orElse, if_pos htruthy, lowered_name]

theorem sortEntry_entry (h : fieldKey = "field" ∨ fieldKey = "colId") :
    GridModel.sortEntry fieldKey (s.entry fieldKey) = .ok s.drafts := by
  have hentry : GridModel.entry [(fieldKey, .text s.field), ("sort", .text s.direction.name)]
      "sort" = .text s.direction.name := by rcases h with rfl | rfl <;> rfl
  have hfield : fieldName (Value.orElse
      (GridModel.entry [(fieldKey, .text s.field), ("sort", .text s.direction.name)] fieldKey)
      ((GridModel.entry [(fieldKey, .text s.field), ("sort", .text s.direction.name)]
        "field").orElse
      (GridModel.entry [(fieldKey, .text s.field), ("sort", .text s.direction.name)]
        "colId"))) = fieldName (.text s.field) := by
    rcases h with rfl | rfl <;> refine fieldName_orElse fun hempty => ?_ <;> rw [hempty] <;> rfl
  unfold GridModel.sortEntry entry drafts
  simp only [hfield, hentry, directionOf_name]

theorem sortEntries_entries (h : fieldKey = "field" ∨ fieldKey = "colId")
    (sorts : List ClientSort) :
    GridModel.sortEntries fieldKey (sorts.map (·.entry fieldKey)) =
      .ok (sorts.flatMap (·.drafts)) := by
  induction sorts with
  | nil => rfl
  | cons s sorts ih =>
    rw [List.map_cons, GridModel.sortEntries, sortEntry_entry s h, ih]
    rfl

end ClientSort

namespace ClientQuery

variable (q : ClientQuery) {params : Params} {orders : Handing} {fieldKey : String}

/-- An order is read unless a list of its criteria is taken for the values of a repeated key. -/
theorem sort_orders (h : fieldKey = "field" ∨ fieldKey = "colId")
    (hget : params.get? "sortModel" = some (orders.hand (.list (q.sort.map (·.entry fieldKey)))))
    (hbare : orders = .bare → q.sort = []) :
    GridModel.sort params fieldKey = .ok (q.sort.flatMap (·.drafts)) := by
  have hkey : fieldKey ≠ "sort" := by rcases h with rfl | rfl <;> decide
  by_cases horders : orders = .bare
  · have hnil := hbare horders
    have hload : GridModel.load params "sortModel" = .ok .null := by
      rw [GridModel.load, hget, hnil, horders]
      rfl
    rw [GridModel.sort, hload, hnil]
    rfl
  · have hload := GridModel.load_list horders hget
      (Json.readableList_map fun s _ => s.readable_entry hkey _)
    rw [GridModel.sort, hload]
    exact ClientSort.sortEntries_entries h q.sort

/-- The last criterion of a bare list is read instead of the list. -/
theorem sort_bare (hget : params.get? "sortModel" = some (.list (q.sort.map (·.entry fieldKey))))
    (hsort : q.sort ≠ []) :
    GridModel.sort params fieldKey = .error (.malformed .sortModelNotArray) := by
  obtain ⟨entries, hlast⟩ : ∃ entries,
      Params.last (.list (q.sort.map (·.entry fieldKey))) = .mapping entries := by
    rw [Params.last, List.getLast?_map, List.getLast?_eq_some_getLast hsort]
    exact ⟨_, rfl⟩
  rw [GridModel.sort, GridModel.load, hget, Option.getD_some, hlast]
  rfl

end ClientQuery

/-! ## Requests of grids -/

namespace ClientQuery

variable (q : ClientQuery) (spelling : Spelling) (models orders : Handing)

section DataTable

variable (page pageSize : Value)

theorem dataTable_entries :
    GridModel.filterEntries (q.dataTable spelling models orders page pageSize) =
      .ok [("items", .list (q.filters.map (·.item spelling)))] := by
  have hget : (q.dataTable spelling models orders page pageSize).get? "filterModel" =
      some (models.hand (.mapping [("items", .list (q.filters.map (·.item spelling)))])) := rfl
  rw [GridModel.filterEntries, GridModel.load_mapping hget
    ⟨⟨Json.readableList_map fun w _ => w.readable_item spelling _, trivial⟩, by simp⟩]
  rfl

theorem itemFilters_items (filters : List ClientFilter) :
    DataTable.itemFilters (filters.map (·.item spelling)) = .ok (filters.map (·.gridDraft)) := by
  induction filters with
  | nil => rfl
  | cons w filters ih =>
    rw [List.map_cons, DataTable.itemFilters, w.itemFilter_item, ih]
    rfl

theorem filters_items :
    DataTable.filters [("items", .list (q.filters.map (·.item spelling)))] =
      .ok (q.filters.map (·.gridDraft)) := by
  have hand : Params.lowered (Value.orElse .null (.text "and")) == "and" := by decide +kernel
  have hjoins : ∀ count,
      DataTable.joins [("items", .list (q.filters.map (·.item spelling)))] count = true :=
    fun count => Bool.or_eq_true_iff.2 (.inr hand)
  rw [← itemFilters_items spelling]
  exact if_pos (hjoins _)

end DataTable

section RowWindow

variable (startRow endRow : Value)

theorem modelFilters_columns (filters : List ClientFilter) :
    RowWindow.modelFilters (filters.map fun w => (w.field, w.column spelling)) =
      .ok (filters.map (·.gridDraft)) := by
  induction filters with
  | nil => rfl
  | cons w filters ih =>
    have hentries : (w.column spelling).entries?.isNone = false := rfl
    rw [List.map_cons, RowWindow.modelFilters]
    simp only [w.fieldName_field, if_neg w.field_ne, hentries, w.columnFilters_column, ih]
    rfl

/-- A window of rows writes neither filters nor an order with keys. -/
theorem tree_rowWindow {root : String}
    (hroot : (q.rowWindow spelling models orders startRow endRow).get? root = none) :
    (q.rowWindow spelling models orders startRow endRow).tree root = [] := by
  have hkeys : ∀ key ∈ ["startRow", "endRow", "filterModel", "sortModel", "search",
      "includeDeleted"], Brackets.readKey? key = none := by decide +kernel
  exact Params.tree_eq_nil hkeys hroot

theorem rowWindow_filters :
    RowWindow.filters (q.rowWindow spelling models orders startRow endRow) =
      .ok (q.filters.map (·.gridDraft)) := by
  have hget : (q.rowWindow spelling models orders startRow endRow).get? "filterModel" =
      some (models.hand (.mapping (q.filters.map fun w => (w.field, w.column spelling)))) := rfl
  have hentries : GridModel.filterEntries (q.rowWindow spelling models orders startRow endRow) =
      .ok (q.filters.map fun w => (w.field, w.column spelling)) := by
    rw [GridModel.filterEntries, GridModel.load_mapping hget
      ⟨Json.readableEntries_map fun w _ => w.readable_column spelling _,
        by rw [List.map_map]; exact q.fields_nodup⟩]
    rfl
  have hmodel := modelFilters_columns spelling q.filters
  rw [RowWindow.filters, hentries, q.tree_rowWindow spelling models orders startRow endRow rfl]
  refine bind_eq_ok.2 ⟨_, rfl, bind_eq_ok.2 ⟨_, hmodel, bind_eq_ok.2 ⟨[], rfl, ?_⟩⟩⟩
  rw [List.append_nil, pure_eq_ok]

end RowWindow

end ClientQuery
end RecordQuery
