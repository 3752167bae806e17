import RecordQuery.Proofs.Memberships
import RecordQuery.Proofs.Readings

/-!
# The normal form of drafts

Requests name fields and operators as they like and write lists in many ways. A draft does not tell
in which way they were written: it names fields by names that are read as themselves and operators
by their own names, and its lists are cut at their commas. Only the values of a set and the ends of
a range stay as a row window gives them.

* `Params.divided_splitCommas`: what is cut at commas stays the same if it is cut again.
* `DraftFilter.Normal.equal`, `DraftFilter.Normal.operand`, `DraftFilter.Normal.condition`: the
  three ways in which filters are made lead to the normal form.
* `DraftQuery.read_normal`: every draft that is read has the normal form.
-/

namespace RecordQuery

open RecordQuery.Text
open GridModel (entry Item)

/-! ## Values that are cut at commas -/

namespace Params

mutual

/-- A part of a value is not cut further. -/
theorem splitCommas_of_mem : ∀ {v w : Value}, w ∈ splitCommas v → splitCommas w = [w]
  | .list _, _, h => splitCommas_of_mem_all (by simpa only [splitCommas] using h)
  | .tuple _, _, h => splitCommas_of_mem_all (by simpa only [splitCommas] using h)
  | .text s, w, h => by
    rw [splitCommas] at h
    obtain ⟨part, -, rfl⟩ := List.mem_map.1 h
    exact commaParts_of_isPart (isPart_of_mem_commaParts h)
  | .null, w, h | .bool _, w, h | .int _, w, h | .float _, w, h | .decimal _, w, h
  | .date _, w, h | .datetime _, w, h | .uuid _, w, h | .mapping _, w, h => by
    simp only [splitCommas, List.mem_singleton] at h
    subst h
    rfl

theorem splitCommas_of_mem_all : ∀ {items : List Value} {w : Value}, w ∈ splitAllCommas items →
    splitCommas w = [w]
  | [], _, h => by cases h
  | v :: rest, w, h => by
    rw [splitAllCommas, List.mem_append] at h
    rcases h with h | h
    · exact splitCommas_of_mem h
    · exact splitCommas_of_mem_all h

end

/-- The list is cut at its commas: no text of it is blank, has a comma or a blank at an end, and
cutting it again changes nothing. -/
structure Divided (items : List Value) : Prop where
  parts : ∀ s, Value.text s ∈ items → IsPart s
  stable : splitCommas (.list items) = items

theorem divided_of_parts {items : List Value} (h : ∀ w ∈ items, splitCommas w = [w]) :
    Divided items where
  parts := by
    intro s hs
    have hcut : commaParts s = [.text s] := by simpa only [splitCommas] using h _ hs
    exact isPart_of_mem_commaParts (hcut ▸ List.mem_singleton_self _)
  stable := by
    rw [splitCommas]
    induction items with
    | nil => rfl
    | cons v rest ih =>
      rw [splitAllCommas, h v List.mem_cons_self,
        ih fun w hw => h w (List.mem_cons_of_mem v hw), List.singleton_append]

theorem divided_splitCommas (v : Value) : Divided (splitCommas v) :=
  divided_of_parts fun _ hw => splitCommas_of_mem hw

end Params

/-! ## Names of fields and operators -/

/-- The name of a field consists of characters of names, and is read as itself. -/
structure IsFieldName (name : String) : Prop where
  chars : ∀ c ∈ name.toList, isFieldChar c = true
  fixed : fieldName (.text name) = name

theorem isFieldName_fieldName (raw : Value) : IsFieldName (fieldName raw) :=
  have hchars : ∀ c ∈ (fieldName raw).toList, isFieldChar c = true :=
    fun _ hc => isFieldChar_of_mem_fieldName hc
  ⟨hchars, fieldName_eq_self hchars⟩

/-- The name of a field may stand between commas. -/
theorem IsFieldName.isPart {name : String} (h : IsFieldName name) (hne : name ≠ "") :
    IsPart name := by
  refine ⟨hne, ?_, ?_⟩
  · intro hcomma
    exact absurd (h.chars _ hcomma) (by decide)
  · rw [trim, trimChars, stripChars_of_forall fun c hc => isBlank_of_isFieldChar (h.chars c hc),
      String.ofList_toList]

theorem trim_operatorNamed {s : String} (h : trim s = s) :
    trim (operatorNamed s) = operatorNamed s := by
  unfold operatorNamed
  cases hs : operatorAliases.lookup s with
  | none => exact h
  | some name =>
    have hnames : ∀ p ∈ operatorAliases, trim p.2 = p.2 := by decide +kernel
    obtain ⟨before, after, halias, -⟩ := List.lookup_eq_some_iff.1 hs
    exact hnames (s, name) (by rw [halias]; simp)

/-- The name of an operator stands for itself, even if there is no operator of that name. -/
theorem canonicalOperator_fixed (raw : Value) :
    canonicalOperator (.text (canonicalOperator raw)) = canonicalOperator raw := by
  have htext {s : String} (h : trim s = s) : canonicalOperator (.text s) = operatorNamed s := by
    rw [canonicalOperator, Value.trimmedOrEmpty]
    split
    · exact congrArg operatorNamed h
    · rename_i hempty
      obtain rfl : s = "" := by simpa [Value.isTruthy] using hempty
      rfl
  have htrim : trim (String.ofList raw.trimmedOrEmpty) = String.ofList raw.trimmedOrEmpty := by
    rw [trim, String.toList_ofList, trimChars_trimmedOrEmpty]
  change canonicalOperator (.text (operatorNamed (.ofList raw.trimmedOrEmpty))) = _
  rw [htext (trim_operatorNamed htrim), operatorNamed_idem]
  rfl

/-! ## Filters -/

/-- The parameters are those of a row window, and the filter is that of an object with the values of
a set or the ends of a range, which a row window takes as they are. -/
structure RowWindow.TakesWhole (params : Params) (f : DraftFilter) : Prop where
  grammar : Grammar.of params = .rowWindow
  whole : ∃ spec, Item.condition spec ∈ items params ∧ plainFilter f.field spec = .ok f ∧
    (isSet spec = true ∨ f.operator = "between")

/-- The normal form of a filter. -/
structure DraftFilter.Normal (params : Params) (f : DraftFilter) : Prop where
  field_ne : f.field ≠ ""
  field : IsFieldName f.field
  operator : canonicalOperator (.text f.operator) = f.operator
  /-- An operator that takes several operands has a list of them. -/
  operands : isMultiValued f.operator = true → ∃ items, f.value = .list items ∧
    (Params.Divided items ∨ RowWindow.TakesWhole params f)

namespace DraftFilter.Normal

variable {params : Params} {raw : Value}

theorem equal (hne : fieldName raw ≠ "") (v : Value) :
    DraftFilter.Normal params ⟨fieldName raw, "equals", v⟩ where
  field_ne := hne
  field := isFieldName_fieldName raw
  operator := canonicalOperator_name .equals
  operands := by
    intro h
    cases h

theorem operand (hne : fieldName raw ≠ "") (op : Value) {v : Value}
    (hv : isMultiValued (canonicalOperator op) = true → ∃ w, v = .list (Params.splitCommas w)) :
    DraftFilter.Normal params ⟨fieldName raw, canonicalOperator op, v⟩ where
  field_ne := hne
  field := isFieldName_fieldName raw
  operator := canonicalOperator_fixed op
  operands := by
    intro h
    obtain ⟨w, rfl⟩ := hv h
    exact ⟨_, rfl, .inl (Params.divided_splitCommas w)⟩

theorem condition (hgrammar : Grammar.of params = .rowWindow) (hne : fieldName raw ≠ "")
    {spec : Entries} {f : DraftFilter} (hspec : Item.condition spec ∈ RowWindow.items params)
    (hf : RowWindow.plainFilter (fieldName raw) spec = .ok f) : f.Normal params := by
  have hplain := hf
  unfold RowWindow.plainFilter at hf
  split at hf
  · rename_i hset
    obtain ⟨values, -, rfl⟩ := map_eq_ok.1 hf
    exact {
      field_ne := hne
      field := isFieldName_fieldName raw
      operator := canonicalOperator_name .isIn
      operands := fun _ => ⟨values, rfl, .inr ⟨hgrammar, spec, hspec, hplain, .inl hset⟩⟩ }
  · cases hf
    refine ⟨hne, isFieldName_fieldName raw, canonicalOperator_fixed _, ?_⟩
    simp only
    generalize canonicalOperator ((entry spec "type").orElse (.text "equals")) = operator at *
    intro hmulti
    by_cases hrange : operator = "between"
    · exact ⟨_, by rw [RowWindow.operands, if_pos hrange],
        .inr ⟨hgrammar, spec, hspec, hplain, .inr hrange⟩⟩
    · have hlisted : operator = "in" ∨ operator = "notIn" := by
        simpa [isMultiValued, hrange] using hmulti
      exact ⟨_, by rw [RowWindow.operands, if_neg hrange, if_pos hlisted],
        .inl (Params.divided_splitCommas _)⟩

end DraftFilter.Normal

/-! ## Objects of columns -/

namespace RowWindow

mutual

/-- Every filter of a column is that of a condition of the column. -/
theorem condition_of_columnFilters (field : String) : ∀ v filters,
    columnFilters field v = .ok filters → ∀ f ∈ filters,
    ∃ spec, Item.condition spec ∈ columnItems field v ∧ plainFilter field spec = .ok f
  | .mapping spec => by
    intro filters h
    have hgroup := failure_conditions? field spec
    unfold columnItems
    unfold columnFilters at h
    cases hfilters : conditions? field spec with
    | none =>
      simp only [hfilters] at h
      rw [hfilters, Option.map_none, eq_comm, Option.map_eq_none_iff] at hgroup
      obtain ⟨g, hg, rfl⟩ := map_eq_ok.1 h
      intro f hf
      rw [List.mem_singleton.1 hf]
      simp only [hgroup]
      exact ⟨spec, List.mem_singleton_self _, hg⟩
    | some group =>
      simp only [hfilters] at h
      rw [hfilters, Option.map_some, eq_comm, Option.map_eq_some_iff] at hgroup
      obtain ⟨group', hitems, hcount⟩ := hgroup
      split at h
      · rename_i hjoins
        have hjoins' : joins spec group'.1 = true := by rwa [(Prod.mk.inj hcount).1]
        simp only [hitems, if_pos hjoins']
        exact condition_of_conditions? field spec hfilters hitems filters h
      · cases h
  | .null | .bool _ | .int _ | .float _ | .decimal _ | .date _ | .datetime _ | .uuid _ | .text _
  | .list _ | .tuple _ => by
    intro filters h
    simp [columnFilters] at h

theorem condition_of_conditions? (field : String) : ∀ (spec : Entries) {group group'},
    conditions? field spec = some group → groupItems? field spec = some group' →
    ∀ filters, group.2 = .ok filters → ∀ f ∈ filters,
    ∃ spec, Item.condition spec ∈ group'.2 ∧ plainFilter field spec = .ok f
  | [], _, _, h, _ => by simp [conditions?] at h
  | (key, v) :: rest, group, group', h, h' => by
    unfold conditions? at h
    unfold groupItems? at h'
    split at h
    · rename_i hkey
      rw [if_pos hkey] at h'
      cases v with
      | list members =>
        cases h
        cases h'
        exact condition_of_allFilters field members
      | _ => cases h
    · rename_i hkey
      rw [if_neg hkey] at h'
      exact condition_of_conditions? field rest h h'

theorem condition_of_allFilters (field : String) : ∀ members filters,
    allFilters field members = .ok filters → ∀ f ∈ filters,
    ∃ spec, Item.condition spec ∈ allItems field members ∧ plainFilter field spec = .ok f
  | [] => by
    intro filters h
    rw [allFilters] at h
    cases h
    exact List.forall_mem_nil _
  | v :: rest => by
    intro filters h
    rw [allFilters] at h
    refine forall_of_append ?_ ?_ h
    · intro found hfound f hf
      obtain ⟨spec, hspec, hplain⟩ := condition_of_columnFilters field v found hfound f hf
      exact ⟨spec, List.mem_append_left _ hspec, hplain⟩
    · intro found hfound f hf
      obtain ⟨spec, hspec, hplain⟩ := condition_of_allFilters field rest found hfound f hf
      exact ⟨spec, List.mem_append_right _ hspec, hplain⟩

end

/-- The filter is that of a condition on a field with a name. -/
def IsFrom (items : List Item) (f : DraftFilter) : Prop :=
  ∃ raw spec, fieldName raw ≠ "" ∧ Item.condition spec ∈ items ∧
    plainFilter (fieldName raw) spec = .ok f

theorem IsFrom.mono {items items' : List Item} {f : DraftFilter} (h : IsFrom items f)
    (hsub : ∀ item ∈ items, item ∈ items') : IsFrom items' f := by
  obtain ⟨raw, spec, hne, hspec, hplain⟩ := h
  exact ⟨raw, spec, hne, hsub _ hspec, hplain⟩

theorem isFrom_columnItems {raw : Value} (hne : fieldName raw ≠ "") {v : Value}
    {filters : List DraftFilter} (h : columnFilters (fieldName raw) v = .ok filters) :
    ∀ f ∈ filters, IsFrom (columnItems (fieldName raw) v) f := by
  intro f hf
  obtain ⟨spec, hspec, hplain⟩ := condition_of_columnFilters (fieldName raw) v filters h f hf
  exact ⟨raw, spec, hne, hspec, hplain⟩

theorem isFrom_modelItems {model : Entries} {filters : List DraftFilter}
    (h : modelFilters model = .ok filters) : ∀ f ∈ filters, IsFrom (modelItems model) f := by
  induction model generalizing filters with
  | nil =>
    rw [modelFilters] at h
    cases h
    exact List.forall_mem_nil _
  | cons e rest ih =>
    have hrest {found : List DraftFilter} (hfound : modelFilters rest = .ok found) :
        ∀ f ∈ found, IsFrom (modelItems (e :: rest)) f := fun f hf =>
      (ih hfound f hf).mono fun item hitem => by
        rw [modelItems, List.flatMap_cons]
        exact List.mem_append_right _ hitem
    unfold modelFilters at h
    simp only at h
    split at h
    · exact hrest h
    · rename_i hfield
      split at h
      · cases h
      · rename_i hobject
        refine forall_of_append (fun found hfound f hf => ?_) (fun found hfound => hrest hfound) h
        refine (isFrom_columnItems hfield hfound f hf).mono fun item hitem => ?_
        rw [modelItems, List.flatMap_cons]
        simp only [if_neg hfield, if_neg hobject]
        exact List.mem_append_left _ hitem

theorem isFrom_flatFilterItems {tree : Entries} {filters : List DraftFilter}
    (h : flatFilters tree = .ok filters) : ∀ f ∈ filters, IsFrom (flatFilterItems tree) f := by
  induction tree generalizing filters with
  | nil =>
    rw [flatFilters] at h
    cases h
    exact List.forall_mem_nil _
  | cons e rest ih =>
    have hrest {found : List DraftFilter} (hfound : flatFilters rest = .ok found) :
        ∀ f ∈ found, IsFrom (flatFilterItems (e :: rest)) f := fun f hf =>
      (ih hfound f hf).mono fun item hitem => by
        rw [flatFilterItems, List.flatMap_cons]
        exact List.mem_append_right _ hitem
    obtain ⟨key, v⟩ := e
    cases v with
    | mapping spec =>
      unfold flatFilters at h
      simp only at h
      split at h
      · exact hrest h
      · rename_i hskip
        refine forall_of_append (fun found hfound f hf => ?_) (fun found hfound => hrest hfound) h
        refine (isFrom_columnItems (not_or.1 hskip).1 hfound f hf).mono fun item hitem => ?_
        rw [flatFilterItems, List.flatMap_cons]
        simp only [if_neg hskip]
        exact List.mem_append_left _ hitem
    | _ =>
      simp only [flatFilters] at h
      exact hrest h

theorem filters_normal {params : Params} (hgrammar : Grammar.of params = .rowWindow)
    {filters : List DraftFilter} (h : RowWindow.filters params = .ok filters) :
    ∀ f ∈ filters, f.Normal params := by
  have hnormal {some : List Item} (hsome : ∀ item ∈ some, item ∈ items params) {f : DraftFilter}
      (hf : IsFrom some f) : f.Normal params := by
    obtain ⟨raw, spec, hne, hspec, hplain⟩ := hf
    exact .condition hgrammar hne (hsome _ hspec) hplain
  obtain ⟨model, hmodel, h⟩ := bind_eq_ok.1 h
  refine forall_of_append (fun found hfound f hf => ?_) (fun found hfound f hf => ?_) h
  · refine hnormal (fun item hitem => ?_) (isFrom_modelItems hfound f hf)
    have hmem : item ∈ GridModel.filterModelItems params modelItems := by
      unfold GridModel.filterModelItems GridModel.loadedItems
      obtain ⟨v, hload, hv⟩ := bind_eq_ok.1 hmodel
      rw [hload]
      cases v with
      | mapping entries =>
        cases hv
        exact hitem
      | null =>
        cases hv
        exact hitem
      | _ => cases hv
    exact List.mem_append_left _ (List.mem_append_left _ hmem)
  · exact hnormal (fun item hitem => List.mem_append_left _ (List.mem_append_right _ hitem))
      (isFrom_flatFilterItems hfound f hf)

end RowWindow

/-! ## Filters of pages -/

variable {params : Params}

theorem DataTable.operand_normal {raw : Value} (hne : fieldName raw ≠ "") (op v : Value) :
    DraftFilter.Normal params
      ⟨fieldName raw, canonicalOperator op, DataTable.operand (canonicalOperator op) v⟩ :=
  .operand hne op fun hmulti => ⟨v, by rw [DataTable.operand, if_pos hmulti]⟩

theorem DataTable.itemFilter_normal {v : Value} {filters : List DraftFilter}
    (h : DataTable.itemFilter v = .ok filters) : ∀ f ∈ filters, f.Normal params := by
  unfold DataTable.itemFilter at h
  split at h
  · cases h
    split
    · exact List.forall_mem_nil _
    · rename_i hskip
      intro f hf
      rw [List.mem_singleton.1 hf]
      exact operand_normal (not_or.1 hskip).1 _ _
  · cases h

theorem DataTable.itemFilters_normal {items : List Value} {filters : List DraftFilter}
    (h : DataTable.itemFilters items = .ok filters) : ∀ f ∈ filters, f.Normal params := by
  induction items generalizing filters with
  | nil =>
    cases h
    exact List.forall_mem_nil _
  | cons v rest ih =>
    exact forall_of_append (fun _ => itemFilter_normal) (fun _ => ih) h

theorem DataTable.entryFilters_normal (key : String) (v : Value) :
    ∀ f ∈ DataTable.entryFilters key v, f.Normal params := by
  intro f hf
  unfold DataTable.entryFilters at hf
  simp only at hf
  split at hf
  · cases hf
  rename_i hskip
  have hne := (not_or.1 (not_or.1 hskip).2).1
  split at hf
  · obtain ⟨e, -, rfl⟩ := List.mem_map.1 hf
    exact operand_normal hne _ _
  · rw [List.mem_singleton.1 hf]
    exact .equal hne _

theorem DataTable.filters_normal {model : Entries} {filters : List DraftFilter}
    (h : DataTable.filters model = .ok filters) : ∀ f ∈ filters, f.Normal params := by
  unfold DataTable.filters at h
  split at h
  · split at h
    · exact itemFilters_normal h
    · cases h
  · cases h
    intro f hf
    obtain ⟨e, -, hf⟩ := List.mem_flatMap.1 hf
    exact entryFilters_normal e.1 e.2 f hf

/-! ## Filters in keys -/

theorem Simple.filters_normal : ∀ f ∈ Simple.filters params, f.Normal params := by
  intro f hf
  obtain ⟨e, -, hf⟩ := List.mem_flatMap.1 hf
  simp only at hf
  split at hf
  · cases hf
  rename_i hne
  unfold fieldFilters at hf
  split at hf
  · obtain ⟨operand, -, rfl⟩ := List.mem_map.1 hf
    exact .operand hne _ fun hmulti => ⟨operand.2, by rw [operandOf, if_pos hmulti]⟩
  · simp only at hf
    split at hf
    · cases hf
    · rw [List.mem_singleton.1 hf]
      exact .equal hne _

/-! ## Orders -/

theorem GridModel.sort_normal {fieldKey : String} {sort : List DraftSort}
    (h : GridModel.sort params fieldKey = .ok sort) : ∀ s ∈ sort, IsFieldName s.field := by
  have hentries (items : List Value) {sort : List DraftSort}
      (h : sortEntries fieldKey items = .ok sort) : ∀ s ∈ sort, IsFieldName s.field := by
    induction items generalizing sort with
    | nil =>
      cases h
      exact List.forall_mem_nil _
    | cons v rest ih =>
      refine forall_of_append (fun found hfound => ?_) (fun _ => ih) h
      unfold sortEntry at hfound
      split at hfound
      · cases hfound
        split
        · exact List.forall_mem_nil _
        · intro s hs
          rw [List.mem_singleton.1 hs]
          exact isFieldName_fieldName _
      · cases hfound
  obtain ⟨model, -, h⟩ := bind_eq_ok.1 h
  split at h
  · cases h
    exact List.forall_mem_nil _
  · exact hentries _ h
  · cases h

theorem RowWindow.flatSort_normal {sort : List DraftSort} (h : flatSort params = .ok sort) :
    ∀ s ∈ sort, IsFieldName s.field := by
  have hindexed (tree : Entries) {found : List (Int × DraftSort)}
      (h : indexedSorts tree = .ok found) : ∀ p ∈ found, IsFieldName p.2.field := by
    induction tree generalizing found with
    | nil =>
      cases h
      exact List.forall_mem_nil _
    | cons e rest ih =>
      refine forall_of_append (fun found hfound => ?_) (fun _ => ih) h
      unfold indexedSort at hfound
      split at hfound
      · simp only at hfound
        split at hfound
        · cases hfound
          exact List.forall_mem_nil _
        · split at hfound
          · cases hfound
            intro p hp
            rw [List.mem_singleton.1 hp]
            exact isFieldName_fieldName _
          · cases hfound
      · cases hfound
        exact List.forall_mem_nil _
  obtain ⟨found, hfound, h⟩ := bind_eq_ok.1 h
  rw [pure_eq_ok] at h
  subst h
  intro s hs
  obtain ⟨p, hp, rfl⟩ := List.mem_map.1 hs
  exact hindexed _ hfound p (List.mem_mergeSort.1 hp)

theorem Simple.sort_normal :
    ∀ s ∈ Simple.sortByKeys params ++ Simple.sortByList params, IsFieldName s.field := by
  refine List.forall_mem_append.2 ⟨?_, ?_⟩
  · intro s hs
    unfold sortByKeys at hs
    simp only at hs
    split at hs
    · cases hs
    · rw [List.mem_singleton.1 hs]
      exact isFieldName_fieldName _
  · unfold sortByList
    split
    · intro s hs
      obtain ⟨part, -, hs⟩ := List.mem_flatMap.1 hs
      unfold sortPart at hs
      simp only at hs
      split at hs
      · cases hs
      · rw [List.mem_singleton.1 hs]
        exact isFieldName_fieldName _
    · exact List.forall_mem_nil _

/-! ## Searches -/

theorem Params.searchFields_normal :
    ∀ name ∈ params.searchFields, name ≠ "" ∧ IsFieldName name := by
  intro name hname
  obtain ⟨given, hgiven⟩ : ∃ given : Value, params.searchFields = if given.isNull then []
      else ((splitCommas given).map fieldName).filter fun name => name != "" := ⟨_, rfl⟩
  rw [hgiven] at hname
  split at hname
  · cases hname
  · obtain ⟨hname, hne⟩ := List.mem_filter.1 hname
    obtain ⟨raw, -, rfl⟩ := List.mem_map.1 hname
    exact ⟨by simpa using hne, isFieldName_fieldName raw⟩

/-! ## Drafts -/

/-- The normal form of a draft that is read from parameters. -/
structure DraftQuery.Normal (params : Params) (draft : DraftQuery) : Prop where
  filters : ∀ f ∈ draft.filters, f.Normal params
  sort : ∀ s ∈ draft.sort, IsFieldName s.field
  search : ∀ name ∈ draft.search.fields, name ≠ "" ∧ IsFieldName name
  divided : Params.Divided (draft.search.fields.map .text)

theorem DraftQuery.normal_of_parts {draft : DraftQuery}
    (filters : ∀ f ∈ draft.filters, f.Normal params)
    (sort : ∀ s ∈ draft.sort, IsFieldName s.field)
    (search : draft.search.fields = params.searchFields) : draft.Normal params where
  filters := filters
  sort := sort
  search := by
    rw [search]
    exact Params.searchFields_normal
  divided := by
    rw [search]
    refine Params.divided_of_parts fun w hw => ?_
    obtain ⟨name, hname, rfl⟩ := List.mem_map.1 hw
    obtain ⟨hne, hfield⟩ := Params.searchFields_normal name hname
    exact commaParts_of_isPart (hfield.isPart hne)

/-- Every draft that is read has the normal form, whatever the grammar and in whichever of its ways
the request is written. The fields of its filters, its order and its search go by names that are
read as themselves, and its operators by names that stand for themselves. An operator that takes
several operands has a list of them, which is cut at its commas unless the filter is that of a set
or a range in a row window. -/
theorem DraftQuery.read_normal {draft : DraftQuery} (h : DraftQuery.read params = .ok draft) :
    draft.Normal params := by
  unfold DraftQuery.read at h
  split at h
  · rename_i hgrammar
    obtain ⟨filters, hfilters, h⟩ := bind_eq_ok.1 h
    obtain ⟨model, hmodel, h⟩ := bind_eq_ok.1 h
    obtain ⟨flat, hflat, h⟩ := bind_eq_ok.1 h
    rw [pure_eq_ok] at h
    subst h
    exact normal_of_parts (RowWindow.filters_normal hgrammar hfilters)
      (List.forall_mem_append.2 ⟨GridModel.sort_normal hmodel, RowWindow.flatSort_normal hflat⟩) rfl
  · obtain ⟨model, -, h⟩ := bind_eq_ok.1 h
    obtain ⟨filters, hfilters, h⟩ := bind_eq_ok.1 h
    obtain ⟨sort, hsort, h⟩ := bind_eq_ok.1 h
    rw [pure_eq_ok] at h
    subst h
    exact normal_of_parts (DataTable.filters_normal hfilters) (GridModel.sort_normal hsort) rfl
  · cases h
    exact normal_of_parts Simple.filters_normal Simple.sort_normal rfl

/-- A request for rows with a group of a list and a set. The set has a text with a comma. -/
def untidyRows : Params :=
  [("startRow", .text "0"),
    ("filterModel", .mapping [("ti-tle ", .mapping [("conditions", .list [
      .mapping [("type", .text " isAnyOf "), ("filter", .list [.text "Alien, ,Heat", .int 8])],
      .mapping [("filterType", .text "set"), ("values", .list [.text "The Good, the Bad"])]])])]),
    ("sortModel", .list [.list [.mapping [("colId", .text "rating;"), ("sort", .text "desc")]]]),
    ("search_fields", .text " title ,,gen re")]

/-- The draft that is read from it. -/
def tidyRows : DraftQuery where
  grammar := .rowWindow
  filters := [⟨"title", "in", .list [.text "Alien", .text "Heat", .int 8]⟩,
    ⟨"title", "in", .list [.text "The Good, the Bad"]⟩]
  sort := [⟨"rating", .text "desc"⟩]
  pagination := { kind := .window, startRow := .text "0" }
  search := { fields := ["title", "genre"] }
  paramCount := 4

theorem untidyRows_normal :
    DraftQuery.read untidyRows = .ok tidyRows ∧ tidyRows.Normal untidyRows := by
  have hread : DraftQuery.read untidyRows = .ok tidyRows := by with_unfolding_all rfl
  exact ⟨hread, DraftQuery.read_normal hread⟩

end RecordQuery
