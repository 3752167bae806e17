import RecordQuery.Proofs.JsonForms
import RecordQuery.Proofs.Results
import RecordQuery.Request.Grammar

/-!
# What operands inherit from parameters

The operands of a draft are parts of the parameters that it is read from, what JSON texts among them
hold, and texts cut out of them.

* `Value.Inherited`: a property of collections that is one of their members, and that texts have and
  whatever is read from a JSON text.
* `Value.Inherited.read`: the operands of a draft have such a property if the parameters have it.
-/

namespace RecordQuery

/-- A property that a collection has just if its members have it, and that a value has which is made
of a text. -/
structure Value.Inherited (P : Value → Prop) : Prop where
  null : P .null
  text (s : String) : P (.text s)
  list_iff {items : List Value} : P (.list items) ↔ ∀ v ∈ items, P v
  tuple_iff {items : List Value} : P (.tuple items) ↔ ∀ v ∈ items, P v
  mapping_iff {entries : Entries} : P (.mapping entries) ↔ ∀ e ∈ entries, P e.2
  json {cs : List Char} {v : Value} : Json.read? cs = some v → P v

namespace Value.Inherited

variable {P : Value → Prop}

/-! ## Parts of values -/

theorem entry (hP : Inherited P) {entries : Entries} (h : ∀ e ∈ entries, P e.2) (key : String) :
    P (GridModel.entry entries key) := by
  unfold GridModel.entry Entries.get?
  cases hfind : entries.find? fun e => e.1 == key with
  | none => exact hP.null
  | some e => exact h e (List.mem_of_find?_eq_some hfind)

theorem orElse {v w : Value} (hv : P v) (hw : P w) : P (v.orElse w) := by
  unfold Value.orElse
  split
  · exact hv
  · exact hw

theorem entries? (hP : Inherited P) {v : Value} (h : P v) {entries : Entries}
    (hentries : v.entries? = some entries) :
    ∀ e ∈ entries, P e.2 := by
  cases v with
  | mapping es =>
    cases hentries
    exact hP.mapping_iff.1 h
  | _ => cases hentries

theorem members? (hP : Inherited P) {v : Value} (h : P v) {items : List Value}
    (hitems : v.members? = some items) :
    ∀ w ∈ items, P w := by
  cases v with
  | list vs =>
    cases hitems
    exact hP.list_iff.1 h
  | tuple vs =>
    cases hitems
    exact hP.tuple_iff.1 h
  | text s =>
    cases hitems
    intro w hw
    obtain ⟨c, -, rfl⟩ := List.mem_map.1 hw
    exact hP.text _
  | mapping es =>
    cases hitems
    intro w hw
    obtain ⟨e, -, rfl⟩ := List.mem_map.1 hw
    exact hP.text _
  | _ => cases hitems

theorem last (hP : Inherited P) {v : Value} (h : P v) : P (Params.last v) := by
  have hlast {items : List Value} (hitems : ∀ v ∈ items, P v) :
      P (items.getLast?.getD .null) := by
    cases hget : items.getLast? with
    | none => exact hP.null
    | some w => exact hitems w (List.mem_of_getLast? hget)
  cases v with
  | list items => exact hlast (hP.list_iff.1 h)
  | tuple items => exact hlast (hP.tuple_iff.1 h)
  | _ => exact h

mutual

theorem splitCommas (hP : Inherited P) : ∀ {v : Value}, P v → ∀ w ∈ Params.splitCommas v, P w
  | .list _, h => splitAllCommas hP (hP.list_iff.1 h)
  | .tuple _, h => splitAllCommas hP (hP.tuple_iff.1 h)
  | .text s, _ => by
    intro w hw
    rw [Params.splitCommas] at hw
    obtain ⟨part, -, rfl⟩ := List.mem_map.1 hw
    exact hP.text _
  | .null, h | .bool _, h | .int _, h | .float _, h | .decimal _, h | .date _, h | .datetime _, h
  | .uuid _, h | .mapping _, h => by
    intro w hw
    simp only [Params.splitCommas, List.mem_singleton] at hw
    exact hw ▸ h

theorem splitAllCommas (hP : Inherited P) : ∀ {items : List Value}, (∀ v ∈ items, P v) →
    ∀ w ∈ Params.splitAllCommas items, P w
  | [], _ => List.forall_mem_nil _
  | v :: rest, h => by
    intro w hw
    rw [Params.splitAllCommas, List.mem_append] at hw
    rcases hw with hw | hw
    · exact splitCommas hP (h v List.mem_cons_self) w hw
    · exact splitAllCommas hP (fun u hu => h u (List.mem_cons_of_mem v hu)) w hw

end

/-- The parts of a list of operands. -/
theorem list_splitCommas (hP : Inherited P) {v : Value} (h : P v) :
    P (.list (Params.splitCommas v)) :=
  hP.list_iff.2 (hP.splitCommas h)

/-! ## Parameters -/

theorem below (hP : Inherited P) {tree : Entries} (h : ∀ e ∈ tree, P e.2) (key : String) :
    ∀ e ∈ Tree.below tree key, P e.2 := by
  unfold Tree.below Entries.get?
  cases hfind : tree.find? fun e => e.1 == key with
  | none => exact List.forall_mem_nil _
  | some found =>
    have hfound := h found (List.mem_of_find?_eq_some hfind)
    simp only [Option.map_some, Option.bind_some]
    cases hentries : found.2.entries? with
    | none => exact List.forall_mem_nil _
    | some entries => exact hP.entries? hfound hentries

theorem insertAt (hP : Inherited P) {tree : Entries} (h : ∀ e ∈ tree, P e.2)
    (path : List String) {v : Value} (hv : P v) : ∀ e ∈ Tree.insertAt tree path v, P e.2 := by
  induction path generalizing tree with
  | nil => exact h
  | cons key path ih =>
    cases path with
    | nil => exact Entries.forall_put h key hv
    | cons next path =>
      exact Entries.forall_put h key (hP.mapping_iff.2 (ih (hP.below h key)))

theorem tree (hP : Inherited P) {params : Params} (h : ∀ e ∈ params, P e.2) (root : String) :
    ∀ e ∈ params.tree root, P e.2 := by
  unfold Params.tree
  have hstart := hP.below h root
  generalize Tree.below params root = start at hstart ⊢
  induction params generalizing start with
  | nil => exact hstart
  | cons e params ih =>
    rw [List.foldl_cons]
    refine ih (fun f hf => h f (List.mem_cons_of_mem e hf)) _ ?_
    split
    · split
      · exact hP.insertAt hstart _ (h e List.mem_cons_self)
      · exact hstart
    · exact hstart

theorem load (hP : Inherited P) {params : Params} (h : ∀ e ∈ params, P e.2) {name : String}
    {v : Value} (hload : GridModel.load params name = .ok v) : P v := by
  have hlast : P (Params.last ((params.get? name).getD .null)) := hP.last (hP.entry h name)
  unfold GridModel.load at hload
  split at hload
  · cases hload
    exact hP.null
  · rename_i heq
    cases hload
    rwa [heq] at hlast
  · rename_i heq
    cases hload
    rwa [heq] at hlast
  · split at hload
    · cases hload
      exact hP.null
    · split at hload
      · rename_i hread
        cases hload
        exact hP.json (Json.read?_eq_some.2 hread)
      all_goals cases hload

theorem filterEntries (hP : Inherited P) {params : Params} (h : ∀ e ∈ params, P e.2)
    {entries : Entries} (hentries : GridModel.filterEntries params = .ok entries) :
    ∀ e ∈ entries, P e.2 := by
  obtain ⟨v, hload, hentries⟩ := bind_eq_ok.1 hentries
  have hv := hP.load h hload
  split at hentries
  · cases hentries
    exact List.forall_mem_nil _
  · cases hentries
    exact hP.mapping_iff.1 hv
  · cases hentries

/-! ## Filters of windows -/

theorem operands (hP : Inherited P) {spec : Entries} (h : ∀ e ∈ spec, P e.2) (operator : String) :
    P (RowWindow.operands operator spec) := by
  have hone (key other : String) : P ((spec.get? key).getD (GridModel.entry spec other)) := by
    have hkey := hP.entry h key
    have hother := hP.entry h other
    unfold GridModel.entry at hkey hother
    cases hget : spec.get? key with
    | none => exact hother
    | some v => rwa [hget] at hkey
  unfold RowWindow.operands
  simp only
  split
  · refine hP.list_iff.2 fun v hv => ?_
    have hmem := (List.mem_filter.1 hv).1
    simp only [List.mem_cons, List.not_mem_nil, or_false] at hmem
    rcases hmem with rfl | rfl
    · exact hone _ _
    · exact hone _ _
  · split
    · exact hP.list_splitCommas (hone _ _)
    · exact hone _ _

theorem plainFilter (hP : Inherited P) {spec : Entries} (h : ∀ e ∈ spec, P e.2) {field : String}
    {f : DraftFilter} (hf : RowWindow.plainFilter field spec = .ok f) : P f.value := by
  unfold RowWindow.plainFilter at hf
  split at hf
  · obtain ⟨values, hvalues, rfl⟩ := map_eq_ok.1 hf
    refine hP.list_iff.2 ?_
    unfold RowWindow.setValues at hvalues
    split at hvalues
    · rename_i hmembers
      cases hvalues
      exact hP.members? (orElse (hP.entry h _) (hP.list_iff.2 (by simp))) hmembers
    · cases hvalues
  · cases hf
    exact hP.operands h _

mutual

theorem columnFilters (hP : Inherited P) (field : String) : ∀ v, P v → ∀ filters,
    RowWindow.columnFilters field v = .ok filters → ∀ f ∈ filters, P f.value
  | .mapping spec => by
    intro h filters hfilters
    have hspec := hP.mapping_iff.1 h
    unfold RowWindow.columnFilters at hfilters
    split at hfilters
    · rename_i hconditions
      split at hfilters
      · exact conditions? hP field spec hspec _ _ hconditions filters hfilters
      · cases hfilters
    · obtain ⟨f, hf, rfl⟩ := map_eq_ok.1 hfilters
      intro g hg
      rw [List.mem_singleton.1 hg]
      exact hP.plainFilter hspec hf
  | .null | .bool _ | .int _ | .float _ | .decimal _ | .date _ | .datetime _ | .uuid _ | .text _
  | .list _ | .tuple _ => by
    intro _ filters hfilters
    simp [RowWindow.columnFilters] at hfilters

theorem conditions? (hP : Inherited P) (field : String) :
    ∀ spec : Entries, (∀ e ∈ spec, P e.2) → ∀ count result,
    RowWindow.conditions? field spec = some (count, result) →
    ∀ filters, result = .ok filters → ∀ f ∈ filters, P f.value
  | [] => by
    intro _ count result hconditions
    simp [RowWindow.conditions?] at hconditions
  | (key, v) :: rest => by
    intro h count result hconditions
    unfold RowWindow.conditions? at hconditions
    split at hconditions
    · cases v with
      | list items =>
        cases hconditions
        exact allFilters hP field items (hP.list_iff.1 (h (key, .list items) List.mem_cons_self))
      | _ => cases hconditions
    · exact conditions? hP field rest (fun e he => h e (List.mem_cons_of_mem _ he)) _ _ hconditions

theorem allFilters (hP : Inherited P) (field : String) :
    ∀ items : List Value, (∀ v ∈ items, P v) → ∀ filters,
    RowWindow.allFilters field items = .ok filters → ∀ f ∈ filters, P f.value
  | [] => by
    intro _ filters hfilters
    rw [RowWindow.allFilters] at hfilters
    cases hfilters
    exact List.forall_mem_nil _
  | v :: rest => by
    intro h filters hfilters
    rw [RowWindow.allFilters] at hfilters
    exact forall_of_append (columnFilters hP field v (h v List.mem_cons_self))
      (allFilters hP field rest fun w hw => h w (List.mem_cons_of_mem v hw)) hfilters

end

theorem modelFilters (hP : Inherited P) {model : Entries} (h : ∀ e ∈ model, P e.2)
    {filters : List DraftFilter} (hfilters : RowWindow.modelFilters model = .ok filters) :
    ∀ f ∈ filters, P f.value := by
  induction model generalizing filters with
  | nil =>
    rw [RowWindow.modelFilters] at hfilters
    cases hfilters
    exact List.forall_mem_nil _
  | cons e rest ih =>
    obtain ⟨hhead, hrest⟩ := List.forall_mem_cons.1 h
    unfold RowWindow.modelFilters at hfilters
    simp only at hfilters
    split at hfilters
    · exact ih hrest hfilters
    · split at hfilters
      · cases hfilters
      · exact forall_of_append (hP.columnFilters _ _ hhead) (fun _ => ih hrest) hfilters

theorem flatFilters (hP : Inherited P) {tree : Entries} (h : ∀ e ∈ tree, P e.2)
    {filters : List DraftFilter} (hfilters : RowWindow.flatFilters tree = .ok filters) :
    ∀ f ∈ filters, P f.value := by
  induction tree generalizing filters with
  | nil =>
    rw [RowWindow.flatFilters] at hfilters
    cases hfilters
    exact List.forall_mem_nil _
  | cons e rest ih =>
    obtain ⟨hhead, hrest⟩ := List.forall_mem_cons.1 h
    obtain ⟨key, v⟩ := e
    cases v with
    | mapping spec =>
      have hlast : P (.mapping (RowWindow.lastEntries spec)) := by
        refine hP.mapping_iff.2 fun e he => ?_
        obtain ⟨e', he', rfl⟩ := List.mem_map.1 he
        exact hP.last (hP.mapping_iff.1 hhead e' he')
      unfold RowWindow.flatFilters at hfilters
      simp only at hfilters
      split at hfilters
      · exact ih hrest hfilters
      · exact forall_of_append (hP.columnFilters _ _ hlast) (fun _ => ih hrest) hfilters
    | _ =>
      simp only [RowWindow.flatFilters] at hfilters
      exact ih hrest hfilters

theorem rowWindow_filters (hP : Inherited P) {params : Params} (h : ∀ e ∈ params, P e.2)
    {filters : List DraftFilter} (hfilters : RowWindow.filters params = .ok filters) :
    ∀ f ∈ filters, P f.value := by
  obtain ⟨model, hmodel, hfilters⟩ := bind_eq_ok.1 hfilters
  exact forall_of_append (fun _ => hP.modelFilters (hP.filterEntries h hmodel))
    (fun _ => hP.flatFilters (hP.tree h _)) hfilters

/-! ## Filters of pages -/

theorem dataTable_operand (hP : Inherited P) {v : Value} (h : P v) (operator : String) :
    P (DataTable.operand operator v) := by
  unfold DataTable.operand
  split
  · exact hP.list_splitCommas h
  · exact h

theorem itemFilter (hP : Inherited P) {v : Value} (h : P v) {filters : List DraftFilter}
    (hfilters : DataTable.itemFilter v = .ok filters) : ∀ f ∈ filters, P f.value := by
  cases v with
  | mapping item =>
    unfold DataTable.itemFilter at hfilters
    simp only [Except.ok.injEq] at hfilters
    subst hfilters
    intro f hf
    split at hf
    · cases hf
    · rw [List.mem_singleton.1 hf]
      exact hP.dataTable_operand (hP.entry (hP.mapping_iff.1 h) _) _
  | _ => cases hfilters

theorem itemFilters (hP : Inherited P) {items : List Value} (h : ∀ v ∈ items, P v)
    {filters : List DraftFilter} (hfilters : DataTable.itemFilters items = .ok filters) :
    ∀ f ∈ filters, P f.value := by
  induction items generalizing filters with
  | nil =>
    rw [DataTable.itemFilters] at hfilters
    cases hfilters
    exact List.forall_mem_nil _
  | cons v rest ih =>
    obtain ⟨hhead, hrest⟩ := List.forall_mem_cons.1 h
    rw [DataTable.itemFilters] at hfilters
    exact forall_of_append (fun _ => hP.itemFilter hhead) (fun _ => ih hrest) hfilters

theorem entryFilters (hP : Inherited P) {v : Value} (h : P v) (key : String) :
    ∀ f ∈ DataTable.entryFilters key v, P f.value := by
  intro f hf
  unfold DataTable.entryFilters at hf
  simp only at hf
  split at hf
  · cases hf
  split at hf
  · obtain ⟨e, he, rfl⟩ := List.mem_map.1 hf
    exact hP.dataTable_operand (hP.mapping_iff.1 h e he) _
  · rw [List.mem_singleton.1 hf]
    exact h

theorem dataTable_filters (hP : Inherited P) {model : Entries} (h : ∀ e ∈ model, P e.2)
    {filters : List DraftFilter} (hfilters : DataTable.filters model = .ok filters) :
    ∀ f ∈ filters, P f.value := by
  have hitems := hP.entry h "items"
  unfold DataTable.filters at hfilters
  split at hfilters
  · rename_i items heq
    rw [heq] at hitems
    split at hfilters
    · exact hP.itemFilters (hP.list_iff.1 hitems) hfilters
    · cases hfilters
  · cases hfilters
    intro f hf
    obtain ⟨e, he, hf⟩ := List.mem_flatMap.1 hf
    exact hP.entryFilters (h e he) e.1 f hf

/-! ## Filters in keys -/

theorem fieldFilters (hP : Inherited P) {v : Value} (h : P v) (field : String) :
    ∀ f ∈ Simple.fieldFilters field v, P f.value := by
  intro f hf
  unfold Simple.fieldFilters at hf
  split at hf
  · obtain ⟨e, he, rfl⟩ := List.mem_map.1 hf
    have hpart := hP.mapping_iff.1 h e he
    unfold operandOf
    simp only
    split
    · exact hP.list_splitCommas hpart
    · exact hP.last hpart
  · simp only at hf
    split at hf
    · cases hf
    · rw [List.mem_singleton.1 hf]
      exact hP.last h

theorem simple_filters (hP : Inherited P) {params : Params} (h : ∀ e ∈ params, P e.2) :
    ∀ f ∈ Simple.filters params, P f.value := by
  intro f hf
  obtain ⟨e, he, hf⟩ := List.mem_flatMap.1 hf
  simp only at hf
  split at hf
  · cases hf
  · exact hP.fieldFilters (hP.tree h "filter" e he) _ f hf

/-! ## Drafts -/

/-- The operands of a draft have the property if the parameters have it. -/
theorem read (hP : Inherited P) {params : Params} (h : ∀ e ∈ params, P e.2) {draft : DraftQuery}
    (hdraft : DraftQuery.read params = .ok draft) : ∀ f ∈ draft.filters, P f.value := by
  unfold DraftQuery.read at hdraft
  split at hdraft
  · obtain ⟨filters, hfilters, hdraft⟩ := bind_eq_ok.1 hdraft
    obtain ⟨_, -, hdraft⟩ := bind_eq_ok.1 hdraft
    obtain ⟨_, -, hdraft⟩ := bind_eq_ok.1 hdraft
    rw [pure_eq_ok] at hdraft
    subst hdraft
    exact hP.rowWindow_filters h hfilters
  · obtain ⟨model, hmodel, hdraft⟩ := bind_eq_ok.1 hdraft
    obtain ⟨filters, hfilters, hdraft⟩ := bind_eq_ok.1 hdraft
    obtain ⟨_, -, hdraft⟩ := bind_eq_ok.1 hdraft
    rw [pure_eq_ok] at hdraft
    subst hdraft
    exact hP.dataTable_filters (hP.filterEntries h hmodel) hfilters
  · cases hdraft
    exact hP.simple_filters h

end Value.Inherited
end RecordQuery
