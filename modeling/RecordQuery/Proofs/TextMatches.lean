import RecordQuery.Proofs.Canonical
import RecordQuery.Proofs.Operators
import RecordQuery.Proofs.Visibility
import RecordQuery.Proofs.Wildcards

/-!
# Texts that rows contain

Filters for a part of a text, and searches, accept the rows in whose cells the text is seen. Marks
in it are no wildcards, and letters of ASCII are seen in either case.

* `Placement.Shows`: the text is seen in a cell.
* `Executor.filterPredicate_textual`: what a criterion for a part of a text accepts.
* `Executor.FindsTexts`, `Executor.findsTexts`: what filters and searches accept.
* `Executor.CaseLost`, `Executor.caseLost`: filters on case-sensitive fields accept what they would
  accept if case did not count.
-/

namespace RecordQuery

open RecordQuery.Store

namespace Store

/-! ## Conditions on texts -/

/-- Where an operator for a part of a text looks for it. -/
def placementOf? : Operator → Option Placement
  | .contains => some .anywhere
  | .startsWith => some .atStart
  | .endsWith => some .atEnd
  | _ => none

/-- The text is seen in the cell, which is not absent, in letters of either case. -/
def Placement.Shows (place : Placement) (text : String) (c : Cell) : Prop :=
  c ≠ .null ∧
    place.Sees (Like.lowerAscii text.toList) (Like.lowerAscii (Like.untilNull c.textChars))

theorem Placement.Finds.lowerAscii {place : Placement} {part text : List Char}
    (h : place.Finds part text) : place.Finds (Like.lowerAscii part) (Like.lowerAscii text) := by
  cases place with
  | anywhere => exact List.IsInfix.map Char.toLower h
  | atStart => exact List.IsPrefix.map Char.toLower h
  | atEnd => exact List.IsSuffix.map Char.toLower h

theorem Placement.shows_text {place : Placement} {part text : String}
    (hpart : '\x00' ∉ part.toList) (htext : '\x00' ∉ text.toList) :
    place.Shows part (.text text) ↔
      place.Finds (Like.lowerAscii part.toList) (Like.lowerAscii text.toList) := by
  rw [Shows, Sees, if_neg fun h => hpart (Like.null_mem_lowerAscii.1 h), Cell.textChars,
    Like.untilNull_of_not_mem htext]
  exact and_iff_right Cell.noConfusion

theorem Predicate.criterion?_textual {column text : String} {place : Placement}
    {c : FilterCriterion} (hop : placementOf? c.operator = some place)
    (hvalue : c.value = .text text) :
    criterion? column c = .ok (.contains (!c.caseSensitive) place column text) := by
  unfold criterion?
  rw [hvalue]
  cases h : c.operator <;> rw [h] at hop <;> cases hop <;> rfl

namespace Table

variable {t : Table}

/-- The store takes the condition, fails on it, whatever the row, if its texts are too long, and
finds it true of just these rows. -/
structure Tests (t : Table) (p : Predicate) (accepted : Row → Prop) : Prop where
  form : (t.condition? p).isSome = true
  breaks_eq : ∀ c, t.condition? p = some c → ∀ row, c.breaks row = !p.isBrief
  accepts_iff : ∀ row, t.accepts p row = true ↔ accepted row

/-- A condition on texts that are too long is refused if there are rows. -/
theorem Tests.refused {p : Predicate} {accepted : Row → Prop} (h : t.Tests p accepted)
    (hbrief : p.isBrief = false) (hrows : t.rows ≠ []) (ps : List Predicate) :
    t.select (p :: ps) = .error Table.refused := by
  refine select_eq_refused (fun c hc => ?_) ps
  obtain ⟨row, hrow⟩ := List.exists_mem_of_ne_nil _ hrows
  exact ⟨row, hrow, by rw [h.breaks_eq c hc, hbrief]; rfl⟩

theorem operand?_text {column text : String} {type : ColumnType}
    (htype : t.type? column = some type) (huuid : type ≠ .uuid) :
    (t.operand? column (.text text)).isSome = true := by
  simp [operand?, htype, ColumnType.bind?, huuid]

theorem tests_contains (folded : Bool) (place : Placement) {column text : String}
    (h : (t.operand? column (.text text)).isSome = true) :
    t.Tests (.contains folded place column text) fun row => place.Shows text (row.cell column) := by
  obtain ⟨operand, hoperand⟩ := Option.isSome_iff_exists.1 h
  have hform : t.condition? (.contains folded place column text) =
      some (.like folded column (likePattern place text)) := by
    simp [condition?, hoperand]
  refine ⟨by rw [hform]; rfl, ?_, fun row => ?_⟩
  · intro c hc row
    cases hform.symm.trans hc
    rfl
  rw [accepts_of_condition? hform, Condition.holds_eq_true, Condition.truth, Placement.Shows]
  cases row.cell column with
  | null => simp
  | integer | real | text =>
    simp only [ne_eq, reduceCtorEq, not_false_eq_true, true_and, Option.some.injEq]
    exact Like.accepts_likePattern folded place text _

theorem closed_form (t : Table) : Predicate.Closed fun p => (t.condition? p).isSome = true where
  always := rfl
  and hp hq := by rw [form_and, hp, hq, Bool.and_self]
  or hp hq := by rw [form_or, hp, hq, Bool.and_self]

/-- Alternatives fail if one of them does. -/
theorem breaks_disjunction {ps : List Predicate} {row : Row}
    (h : ∀ p ∈ ps, ∀ c, t.condition? p = some c → c.breaks row = !p.isBrief) :
    ∀ c, t.condition? (.disjunction ps) = some c →
      c.breaks row = !(Predicate.disjunction ps).isBrief := by
  induction ps with
  | nil =>
    intro c hc
    cases hc
    rfl
  | cons p ps ih =>
    cases ps with
    | nil => exact h p List.mem_cons_self
    | cons q qs =>
      intro c hc
      change t.condition? (.or p (.disjunction (q :: qs))) = some c at hc
      simp only [condition?, bind, Option.bind_eq_some_iff, pure, Option.some.injEq] at hc
      obtain ⟨c₁, hc₁, c₂, hc₂, rfl⟩ := hc
      have hrest := ih (fun r hr => h r (List.mem_cons_of_mem p hr)) c₂ hc₂
      have hfirst := h p List.mem_cons_self c₁ hc₁
      change (c₁.breaks row || c₂.breaks row) = !(p.isBrief && (Predicate.disjunction _).isBrief)
      rw [hfirst, hrest, Bool.not_and]

/-- A search asks for its term in each of its fields. -/
theorem tests_search {s : SearchSpec} (hne : s.fields ≠ [])
    (h : ∀ name ∈ s.fields, (t.operand? name (.text s.term)).isSome = true) :
    t.Tests (.search s) fun row =>
      ∃ name ∈ s.fields, Placement.anywhere.Shows s.term (row.cell name) := by
  have hfield : ∀ name ∈ s.fields, t.Tests (.contains true .anywhere name s.term) fun row =>
      Placement.anywhere.Shows s.term (row.cell name) :=
    fun name hname => tests_contains true .anywhere (h name hname)
  have hform : (t.condition? (.search s)).isSome = true := by
    apply t.closed_form.disjunction
    intro p hp
    obtain ⟨name, hname, rfl⟩ := List.mem_map.1 hp
    exact (hfield name hname).form
  refine ⟨hform, fun c hc row => breaks_disjunction (fun p hp => ?_) c hc, fun row => ?_⟩
  · obtain ⟨name, hname, rfl⟩ := List.mem_map.1 hp
    exact fun c hc => (hfield name hname).breaks_eq c hc row
  rw [Predicate.search, accepts_disjunction (by simpa using hne) hform, List.any_map,
    List.any_eq_true]
  constructor
  · rintro ⟨name, hname, haccepts⟩
    exact ⟨name, hname, ((hfield name hname).accepts_iff row).1 haccepts⟩
  · rintro ⟨name, hname, hshows⟩
    exact ⟨name, hname, ((hfield name hname).accepts_iff row).2 hshows⟩

end Table
end Store

/-! ## Filters for a part of a text -/

namespace Metadata

variable {md : Metadata} {d : DraftFilter} {place : Placement}

/-- A filter that looks for its operand, which is a single one, in the texts of its field. -/
structure Seeks (md : Metadata) (d : DraftFilter) (place : Placement) : Prop where
  filterable : md.isFilterable d.field = true
  kind : md.kind d.field = .text
  operator : ∃ op, Operator.ofName? d.operator = some op ∧ placementOf? op = some place
  single : isCollection d.value = false
  present : d.value ≠ .null
  text : d.value.toText ≠ ""

theorem operand_textual {field : String} {op : Operator} {raw : Value}
    (hop : placementOf? op = some place) (hkind : md.kind field = .text)
    (hsingle : isCollection raw = false) (hpresent : raw ≠ .null) (htext : raw.toText ≠ "") :
    md.operand field op raw = .ok (.text raw.toText) := by
  have hblank : isBlankFor (md.kind field) raw = false := by
    rw [hkind]
    cases raw <;> first | rfl | exact absurd rfl hpresent | exact Bool.and_false _
  have hoperand : md.operand field op raw = md.singleOperand field op raw ∧ op ≠ .regex ∧
      op.isTextual = true := by
    cases op <;> cases hop <;> exact ⟨rfl, nofun, rfl⟩
  obtain ⟨hoperand, hregex, htextual⟩ := hoperand
  rw [hoperand, singleOperand, hsingle, hblank, if_neg Bool.false_ne_true,
    if_neg Bool.false_ne_true, if_neg hregex, if_pos htextual, if_neg htext]

/-- The check makes a criterion of the filter, with the letter case that the field declares. -/
theorem Seeks.exists_criterion (h : md.Seeks d place) :
    ∃ c, md.checkFilter d = .ok c ∧ placementOf? c.operator = some place ∧ c.field = d.field ∧
      c.value = .text d.value.toText ∧ c.caseSensitive = md.isCaseSensitive d.field := by
  obtain ⟨op, hname, hop⟩ := h.operator
  have hsupports : md.supports d.field op = true := by
    have hcustom : md.supports d.field op = (md.kind d.field).operators.contains op := by
      cases op <;> cases hop <;> rfl
    rw [hcustom, h.kind]
    cases op <;> cases hop <;> rfl
  have hc := checkFilter_eq h.filterable hname hsupports
  rw [operand_textual hop h.kind h.single h.present h.text] at hc
  exact ⟨_, hc, hop, rfl, rfl, rfl⟩

end Metadata

namespace Executor

variable {x : Executor} {t : Table}

theorem exists_type (hcolumns : t.columns = x.metadata.model.columns) {name : String}
    (h : x.metadata.model.hasColumn name = true) : ∃ type, t.type? name = some type := by
  obtain ⟨c, hc⟩ := Option.isSome_iff_exists.1 (List.find?_isSome.2 (List.any_eq_true.1 h))
  exact ⟨c.type, by rw [Table.type?, hcolumns, hc]; rfl⟩

/-- A criterion for a part of a text becomes a condition that is true of the rows whose cells show
the operand, whether letter case is to count or not. -/
theorem filterPredicate_textual (hcolumns : t.columns = x.metadata.model.columns)
    {c : FilterCriterion} {place : Placement} {text : String}
    (hop : placementOf? c.operator = some place) (hvalue : c.value = .text text)
    (hcolumn : x.metadata.model.hasColumn c.field = true) (huuid : t.type? c.field ≠ some .uuid) :
    x.filterPredicate c = .ok (.contains (!c.caseSensitive) place c.field text) ∧
      ∀ folded, t.Tests (.contains folded place c.field text) fun row =>
        place.Shows text (row.cell c.field) := by
  have hcustom : c.operator ≠ .custom := by
    intro h
    rw [h] at hop
    cases hop
  have hname : x.metadata.column? c.field = .ok c.field := by
    rw [Metadata.column?, if_pos hcolumn]
  refine ⟨?_, fun folded => Table.tests_contains folded place ?_⟩
  · rw [filterPredicate, hname]
    exact (if_neg hcustom).trans (Predicate.criterion?_textual hop hvalue)
  · obtain ⟨type, htype⟩ := exists_type hcolumns hcolumn
    refine Table.operand?_text htype ?_
    rintro rfl
    exact huuid htype

/-! ## What rows show -/

/-- What filters for parts of texts, and searches, accept. -/
structure FindsTexts (x : Executor) (t : Table) : Prop where
  /-- A criterion for which case does not count accepts the rows that show its operand. -/
  criterion : ∀ (c : FilterCriterion) (place : Placement) (text : String),
    placementOf? c.operator = some place → c.value = .text text → c.caseSensitive = false →
    x.metadata.model.hasColumn c.field = true → t.type? c.field ≠ some .uuid →
    ∃ p, x.filterPredicate c = .ok p ∧ t.Tests p fun row => place.Shows text (row.cell c.field)
  /-- A filter on a field that is not case-sensitive has such a criterion. -/
  filter : ∀ d place, x.metadata.Seeks d place → x.metadata.isCaseSensitive d.field = false →
    ∃ c p, x.metadata.checkFilter d = .ok c ∧ x.filterPredicate c = .ok p ∧
      t.Tests p fun row => place.Shows d.value.toText (row.cell d.field)
  /-- A search accepts the rows that show its term in one of the fields. -/
  search : ∀ s : SearchSpec, s.fields ≠ [] →
    (∀ name ∈ s.fields, x.metadata.isSearchable name = true ∧ t.type? name ≠ some .uuid) →
    ∃ p, x.searchPredicate s = .ok p ∧ t.Tests p fun row =>
      ∃ name ∈ s.fields, Placement.anywhere.Shows s.term (row.cell name)
  /-- The store refuses a search in a field of identifiers, which takes no text. -/
  refused : ∀ s : SearchSpec, (∃ name ∈ s.fields, t.type? name = some .uuid) →
    t.condition? (.search s) = none

section Models

variable {m : Model} {greatest : Int} {size : Option Int}
  (hmd : Metadata.ofModel? m greatest size = .ok x.metadata)
  (hcolumns : t.columns = x.metadata.model.columns)

include hmd hcolumns

/-- The field of a filter for a part of a text has a column of texts. -/
theorem column_of_seeks {d : DraftFilter} {place : Placement} (h : x.metadata.Seeks d place) :
    x.metadata.model.hasColumn d.field = true ∧ t.type? d.field ≠ some .uuid := by
  refine ⟨Metadata.hasColumn_of_declared hmd (by
    simp [Model.declared, List.contains_iff_mem.1 h.filterable]), fun huuid => ?_⟩
  cases type?_of_kind_text hcolumns h.kind huuid

/-- For every model and every table with its columns, filters for a part of a text accept just the
rows whose cell shows the operand, and a search those where a field shows the term, whatever marks
these texts have in them. No other row is accepted, and no text is refused but for its size or for a
column that holds no texts. -/
theorem findsTexts : x.FindsTexts t where
  criterion c place text hop hvalue _ hcolumn huuid := by
    obtain ⟨hp, htests⟩ := filterPredicate_textual hcolumns hop hvalue hcolumn huuid
    exact ⟨_, hp, htests _⟩
  filter d place h _ := by
    obtain ⟨c, hc, hop, hfield, hvalue, -⟩ := h.exists_criterion
    obtain ⟨hcolumn, huuid⟩ := column_of_seeks hmd hcolumns h
    rw [← hfield] at hcolumn huuid ⊢
    obtain ⟨hp, htests⟩ := filterPredicate_textual hcolumns hop hvalue hcolumn huuid
    exact ⟨c, _, hc, hp, htests _⟩
  search s hne h := by
    have hcolumn : ∀ name ∈ s.fields, x.metadata.model.hasColumn name = true := fun name hname =>
      Metadata.hasColumn_of_declared hmd (by
        simp [Model.declared, List.contains_iff_mem.1 (h name hname).1])
    refine ⟨.search s, ?_, Table.tests_search hne fun name hname => ?_⟩
    · have hnames : x.columns s.fields = .ok s.fields := by
        rw [columns, mapM_eq_ok, List.forall₂_same]
        intro name hname
        rw [Metadata.column?, if_pos (hcolumn name hname)]
      rw [searchPredicate, hnames]
      rfl
    · obtain ⟨type, htype⟩ := exists_type hcolumns (hcolumn name hname)
      refine Table.operand?_text htype ?_
      rintro rfl
      exact (h name hname).2 htype
  refused s := by
    rintro ⟨name, hname, huuid⟩
    by_contra hform
    have hforms := Table.forms_of_disjunction (Option.isSome_iff_ne_none.2 hform)
    have hfield := hforms _ (List.mem_map_of_mem hname)
    simp [Table.condition?, Table.operand?, huuid, ColumnType.bind?] at hfield

end Models

/-- The films as a store holds them, and what is asked of them. -/
def films : Executor where
  metadata := lenientFilms.metadata

/-- A film with marks in its title. -/
def markedFilm : Row := [("title", .text "100% A_B/C")]

/-- A part of a title that is made of marks, in other letters than there. -/
def marksInTitle : DraftFilter := ⟨"title", "endsWith", .text "% a_b/c"⟩

/-- The marks of an operand are looked for themselves, and a search passes over fields that are
absent. -/
theorem marksInTitle_found :
    (∃ c p, films.metadata.checkFilter marksInTitle = .ok c ∧ films.filterPredicate c = .ok p ∧
      Table.filmTable.accepts p markedFilm = true ∧
      Table.filmTable.accepts p [("title", .text "100 A.B.C")] = false) ∧
    ∃ p, films.searchPredicate ⟨"0%", ["genre", "title"]⟩ = .ok p ∧
      Table.filmTable.accepts p markedFilm = true := by
  have hmd : Metadata.ofModel? Catalog.movies 100 = .ok films.metadata := by
    with_unfolding_all rfl
  have hfinds := findsTexts hmd (t := Table.filmTable) rfl
  have hseeks : films.metadata.Seeks marksInTitle .atEnd :=
    ⟨rfl, rfl, ⟨.endsWith, rfl, rfl⟩, rfl, nofun, by decide +kernel⟩
  obtain ⟨c, p, hc, hp, htests⟩ := hfinds.filter _ _ hseeks rfl
  obtain ⟨q, hq, hsearch⟩ := hfinds.search ⟨"0%", ["genre", "title"]⟩ (List.cons_ne_nil _ _)
    (by decide +kernel)
  refine ⟨⟨c, p, hc, hp, (htests.accepts_iff _).2 ⟨nofun, ?_⟩, ?_⟩,
    q, hq, (hsearch.accepts_iff _).2 ⟨"title", by decide +kernel, nofun, ?_⟩⟩
  · decide +kernel
  · rw [Bool.eq_false_iff, ne_eq, htests.accepts_iff]
    rintro ⟨-, h⟩
    revert h
    decide +kernel
  · decide +kernel

/-- A part of a title with a null character, after which nothing is looked at. -/
def nullInTitle : DraftFilter := ⟨"title", "contains", .text "a\x00zz"⟩

/-- A part of a title that is too long for the store. -/
def longInTitle : DraftFilter := ⟨"title", "contains", .text longText⟩

/-- What stands before a null character is found at the end of a title, in which the rest does not
lie. A text that is too long does not lie in a short title, but the store refuses to look for it. -/
theorem null_found_long_refused :
    (∃ c p, films.metadata.checkFilter nullInTitle = .ok c ∧
      films.metadata.isCaseSensitive nullInTitle.field = false ∧
      films.filterPredicate c = .ok p ∧
      Table.filmTable.accepts p [("title", .text "Roma")] = true ∧
      ¬ Placement.anywhere.Finds (Like.lowerAscii nullInTitle.value.toText.toList)
        (Like.lowerAscii "Roma".toList)) ∧
    ∃ c p, films.metadata.checkFilter longInTitle = .ok c ∧
      films.metadata.isCaseSensitive longInTitle.field = false ∧
      films.filterPredicate c = .ok p ∧
      ({ Table.filmTable with rows := [markedFilm] } : Table).select [p] = .error Table.refused ∧
      ¬ Placement.anywhere.Finds longText.toList "100% A_B/C".toList := by
  have htext : longInTitle.value.toText = longText := String.ofList_toList
  have hseeks : films.metadata.Seeks longInTitle .anywhere :=
    ⟨rfl, rfl, ⟨.contains, rfl, rfl⟩, rfl, nofun, htext ▸ longText_ne⟩
  obtain ⟨c, hc, hop, hfield, hvalue, -⟩ := hseeks.exists_criterion
  rw [htext] at hvalue
  obtain ⟨hp, htests⟩ := filterPredicate_textual (x := films)
    (t := { Table.filmTable with rows := [markedFilm] }) rfl hop hvalue (hfield ▸ rfl)
    (by rw [hfield]; decide)
  refine ⟨⟨_, _, rfl, rfl, rfl, by decide +kernel, by decide +kernel⟩, c, _, hc, rfl, hp, ?_, ?_⟩
  · exact (htests _).refused longText_refused (by simp) []
  · intro hfinds
    have hlength := List.IsInfix.length_le hfinds
    rw [longText_length] at hlength
    exact absurd hlength (by decide)

/-! ## Letter case -/

/-- A filter on a case-sensitive field, which is to accept the rows whose texts have the operand as
it is given. The store looks for it in letters of either case. -/
structure CaseLost (x : Executor) (t : Table) (d : DraftFilter) (place : Placement) : Prop where
  /-- The condition says that case counts, but accepts what it would accept if case did not. -/
  folded : ∃ c p q, x.metadata.checkFilter d = .ok c ∧ c.caseSensitive = true ∧
    x.filterPredicate c = .ok p ∧ x.filterPredicate { c with caseSensitive := false } = .ok q ∧
    p ≠ q ∧ (∀ row, t.accepts p row = t.accepts q row) ∧
    t.Tests p fun row => place.Shows d.value.toText (row.cell d.field)
  /-- Of a text without null characters it asks whether the operand is there in some letters, which
  it is if it is there as given. -/
  accepts : ∀ c p, x.metadata.checkFilter d = .ok c → x.filterPredicate c = .ok p →
    ∀ row s, row.cell d.field = .text s → '\x00' ∉ d.value.toText.toList → '\x00' ∉ s.toList →
    (t.accepts p row = true ↔
      place.Finds (Like.lowerAscii d.value.toText.toList) (Like.lowerAscii s.toList)) ∧
    (place.Finds d.value.toText.toList s.toList → t.accepts p row = true)

/-- No declaration makes the case of letters count. The check does mark the criterion on a
case-sensitive field, and a condition of its own is made of it, but the store accepts the same rows
by it as by the one without the mark: those that show the operand in letters of either case. -/
theorem caseLost {m : Model} {greatest : Int} {size : Option Int}
    (hmd : Metadata.ofModel? m greatest size = .ok x.metadata)
    (hcolumns : t.columns = x.metadata.model.columns) {d : DraftFilter} {place : Placement}
    (h : x.metadata.Seeks d place) (hcase : x.metadata.isCaseSensitive d.field = true) :
    x.CaseLost t d place := by
  obtain ⟨c, hc, hop, hfield, hvalue, hcounts⟩ := h.exists_criterion
  rw [hcase] at hcounts
  obtain ⟨hcolumn, huuid⟩ := column_of_seeks hmd hcolumns h
  rw [← hfield] at hcolumn huuid
  obtain ⟨hp, htests⟩ := filterPredicate_textual hcolumns hop hvalue hcolumn huuid
  obtain ⟨hq, -⟩ := filterPredicate_textual (c := { c with caseSensitive := false }) hcolumns hop
    hvalue hcolumn huuid
  rw [hcounts] at hp
  constructor
  · refine ⟨c, _, _, hc, hcounts, hp, hq, by simp, fun row => ?_, ?_⟩
    · rw [Bool.eq_iff_iff, (htests _).accepts_iff, (htests _).accepts_iff]
    · rw [← hfield]
      exact htests _
  · intro c' p hc' hp' row s hcell hoperand htext
    cases hc.symm.trans hc'
    cases hp.symm.trans hp'
    rw [← hfield] at hcell
    have haccepts := (htests false).accepts_iff row
    rw [hcell, Placement.shows_text hoperand htext] at haccepts
    exact ⟨haccepts, fun hfinds => haccepts.2 hfinds.lowerAscii⟩

/-- A part of a code in capitals. -/
def capitalsInCode : DraftFilter := ⟨"imdb_code", "contains", .text "TT"⟩

/-- The codes of films are case-sensitive, and a code is found by capitals that it does not have. -/
theorem capitalsInCode_found :
    films.CaseLost Table.filmTable capitalsInCode .anywhere ∧
      ∃ c p, films.metadata.checkFilter capitalsInCode = .ok c ∧ films.filterPredicate c = .ok p ∧
        Table.filmTable.accepts p [("imdb_code", .text "tt0078748")] = true ∧
        ¬ Placement.anywhere.Finds "TT".toList "tt0078748".toList := by
  have hmd : Metadata.ofModel? Catalog.movies 100 = .ok films.metadata := by
    with_unfolding_all rfl
  have hseeks : films.metadata.Seeks capitalsInCode .anywhere :=
    ⟨rfl, rfl, ⟨.contains, rfl, rfl⟩, rfl, nofun, by decide +kernel⟩
  exact ⟨caseLost hmd rfl hseeks rfl, _, _, rfl, rfl, by decide +kernel, by decide +kernel⟩

end Executor
end RecordQuery
