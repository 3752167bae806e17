import RecordQuery.Model.Catalog
import RecordQuery.Proofs.Executions
import RecordQuery.Proofs.Keyset
import RecordQuery.Proofs.Plans
import RecordQuery.Proofs.Wildcards

/-!
# Confinement

What a request can see of a table are the rows within its scope, without the deleted ones unless it
shows them. No other row has an influence on the answer.

* `Table.run_congr`: two tables give the same reply to a query whose conditions accept only rows
  that they share.
* `Executor.predicates_decided`: the conditions of a validated request are decided for every row,
  so that a hidden row cannot make a query fail.
* `Listing.run_confined`: tables that look alike to a request give the same answer to it.
-/

namespace RecordQuery

open RecordQuery.Store

namespace Store.Table

variable {t t' : Table}

/-! ## Tables with the same columns -/

/-- The tables have the same columns, and read expressions alike. -/
structure Akin (t t' : Table) : Prop where
  columns : t.columns = t'.columns
  names : t.characterNames = t'.characterNames

theorem Akin.symm (h : t.Akin t') : t'.Akin t := ⟨h.columns.symm, h.names.symm⟩

theorem condition?_congr (h : t.Akin t') (p : Predicate) : t.condition? p = t'.condition? p := by
  have hoperand : t.operand? = t'.operand? := by
    funext column v
    simp only [operand?, type?, h.columns]
  have hexpression : t.expressionOf? = t'.expressionOf? := by
    funext v
    rw [expressionOf?, expressionOf?, h.names]
  induction p with
  | and p q ihp ihq | or p q ihp ihq => simp only [condition?, ihp, ihq]
  | _ => simp only [condition?, hoperand, hexpression]

theorem accepts_congr (h : t.Akin t') (p : Predicate) (row : Row) :
    t.accepts p row = t'.accepts p row := by
  rw [accepts, accepts, condition?_congr h]

/-- A selection by conditions that are decided fails only for one that has no form. -/
theorem select_of_decides {ps : List Predicate} (h : ∀ p ∈ ps, t.Decides p) :
    t.select ps = match ps.mapM t.condition? with
      | none => .error refused
      | some _ => .ok (t.rows.filter fun row => ps.all fun p => t.accepts p row) := by
  cases hcs : ps.mapM t.condition? with
  | none => simp [select, hcs]
  | some cs =>
    refine select_eq_ok.2 ⟨⟨cs, hcs, fun row hrow => breaks_allOf fun c hc => ?_⟩, rfl⟩
    obtain ⟨p, hp, hpc⟩ := exists_of_mem_right (mapM_eq_some.1 hcs) hc
    exact h p hp c hpc row hrow

/-- A selection whose first condition is not decided for a row is refused. -/
theorem select_eq_refused {p : Predicate}
    (hp : ∀ c, t.condition? p = some c → ∃ row ∈ t.rows, c.breaks row = true)
    (ps : List Predicate) : t.select (p :: ps) = .error refused := by
  cases hselect : t.select (p :: ps) with
  | error e => rw [select_eq_error hselect]
  | ok rows =>
    obtain ⟨⟨cs, hcs, hbreaks⟩, -⟩ := select_eq_ok.1 hselect
    rw [List.mapM_cons] at hcs
    obtain ⟨c, hc, hcs⟩ := Option.bind_eq_some_iff.1 hcs
    obtain ⟨rest, -, hcs⟩ := Option.bind_eq_some_iff.1 hcs
    obtain rfl : c :: rest = cs := Option.some.inj hcs
    obtain ⟨row, hrow, hbroken⟩ := hp c hc
    have hall := hbreaks row hrow
    change (Condition.and c (allOf rest)).breaks row = false at hall
    rw [Condition.breaks_and, hbroken] at hall
    cases hall

/-- So is one for a text that is too long, in a table that has rows. -/
theorem select_contains_eq_refused {folded : Bool} {place : Placement} {text : String}
    (htext : Like.takes (likePattern place text) = false) (hrows : t.rows ≠ []) (column : String)
    (ps : List Predicate) :
    t.select (.contains folded place column text :: ps) = .error refused := by
  refine select_eq_refused (fun c hc => ?_) ps
  obtain ⟨row, hrow⟩ := List.exists_mem_of_ne_nil _ hrows
  obtain ⟨_, -, rfl⟩ := Option.map_eq_some_iff.1 hc
  exact ⟨row, hrow, by rw [Condition.breaks, htext]; rfl⟩

/-- The store fails to count what has a text that is too long. -/
theorem run_contains_eq_refused {folded : Bool} {place : Placement} {column text : String}
    (htext : Like.takes (likePattern place text) = false) (hrows : t.rows ≠ []) {q : StoreQuery}
    {ps : List Predicate} (hq : q.predicates = .contains folded place column text :: ps)
    (htotal : q.withTotal = true) : t.run q = .error refused := by
  have hcount : t.count? q = .error refused := by
    rw [count?, if_pos htotal, hq, select_contains_eq_refused htext hrows]
    rfl
  rw [run, hcount]
  rfl

/-! ## Rows that look alike -/

/-- The same rows: in the same places or, if a key tells them apart, in any places. -/
def Alike (key : String) (rows rows' : List Row) : Prop :=
  rows = rows' ∨ (rows.Perm rows' ∧ Keyed key rows)

theorem Alike.filter {key : String} {rows rows' : List Row} (h : Alike key rows rows')
    (p : Row → Bool) : Alike key (rows.filter p) (rows'.filter p) := by
  rcases h with rfl | ⟨hperm, hkeyed⟩
  · exact .inl rfl
  · exact .inr ⟨hperm.filter p, hkeyed.filter p⟩

theorem Alike.length_eq {key : String} {rows rows' : List Row} (h : Alike key rows rows') :
    rows.length = rows'.length := by
  rcases h with rfl | ⟨hperm, -⟩
  · rfl
  · exact hperm.length_eq

/-- An order that has the key puts rows that look alike into the same order. -/
theorem Alike.sort_eq {key : String} {rows rows' : List Row} (h : Alike key rows rows')
    {keys : List SortKey} {k : SortKey} (hk : k ∈ keys) (hkey : k.column = key)
    (ho : ∀ row ∈ rows, row.Ordered keys) : sort keys rows = sort keys rows' := by
  rcases h with rfl | ⟨hperm, hkeyed⟩
  · rfl
  have hne := hkeyed.pairwise_ne hk hkey ho
  refine eq_of_strict (sort_strict ho hne) (sort_strict ?_ ?_) ?_
  · exact fun row hrow => ho row (hperm.mem_iff.2 hrow)
  · exact hne.perm hperm fun hab heq => hab (Std.OrientedCmp.eq_symm heq)
  · exact (sort_perm keys rows).trans (hperm.trans (sort_perm keys rows').symm)

section Queries

variable {key : String} {visible : Row → Bool}

/-- Decided conditions that accept only visible rows select alike from both tables, or from
neither. -/
theorem select_congr (hakin : t.Akin t')
    (halike : Alike key (t.rows.filter visible) (t'.rows.filter visible)) {ps : List Predicate}
    (hdecides : ∀ p ∈ ps, t.Decides p ∧ t'.Decides p)
    (hvisible : ∀ row, (ps.all fun p => t.accepts p row) = true → visible row = true) :
    Matched (fun rows rows' => Alike key rows rows' ∧ ∀ row ∈ rows, row ∈ t.rows)
      (t.select ps) (t'.select ps) := by
  rw [select_of_decides fun p hp => (hdecides p hp).1,
    select_of_decides fun p hp => (hdecides p hp).2, ← funext (condition?_congr hakin)]
  cases ps.mapM t.condition? with
  | none => exact .error refused
  | some cs =>
    refine .ok ⟨?_, fun row hrow => List.mem_of_mem_filter hrow⟩
    have hfilter (u : Table) (hu : t.Akin u) :
        (u.rows.filter fun row => ps.all fun p => u.accepts p row)
          = (u.rows.filter visible).filter fun row => ps.all fun p => t.accepts p row := by
      rw [List.filter_filter]
      apply List.filter_congr
      intro row _
      simp only [← accepts_congr hu]
      cases hall : ps.all fun p => t.accepts p row with
      | false => rfl
      | true => rw [hvisible row hall, Bool.and_self]
    rw [hfilter t ⟨rfl, rfl⟩, hfilter t' hakin]
    exact halike.filter _

theorem count?_congr (hakin : t.Akin t')
    (halike : Alike key (t.rows.filter visible) (t'.rows.filter visible)) {q : StoreQuery}
    (hdecides : ∀ p ∈ q.predicates, t.Decides p ∧ t'.Decides p)
    (hvisible : ∀ row, (q.predicates.all fun p => t.accepts p row) = true → visible row = true) :
    t.count? q = t'.count? q := by
  have hselect := select_congr hakin halike hdecides hvisible
  unfold count?
  rw [hselect.map_eq fun _ _ hsame => congrArg some hsame.1.length_eq]

/-- Whether a row can be read is a matter of the columns alone. -/
theorem fetch_congr (hcolumns : t.columns = t'.columns) (rows : List Row) :
    t.fetch rows = t'.fetch rows := by
  have hreads : t.reads = t'.reads := by
    funext row
    rw [reads, reads, hcolumns]
  rw [fetch, fetch, hreads]

/-- Two tables give the same reply to a query whose conditions accept only rows that they share. -/
theorem run_congr (hakin : t.Akin t')
    (halike : Alike key (t.rows.filter visible) (t'.rows.filter visible)) {q : StoreQuery}
    (hdecides : ∀ p ∈ q.predicates, t.Decides p ∧ t'.Decides p)
    (hafter : ∀ p ∈ q.after, t.Decides p ∧ t'.Decides p)
    (hvisible : ∀ row, (q.predicates.all fun p => t.accepts p row) = true → visible row = true)
    (horder : 0 < q.limit → (∃ k ∈ q.orderBy, k.column = key) ∧
      ∀ row ∈ t.rows, row.Ordered q.orderBy) :
    t.run q = t'.run q := by
  have hslice : t.slice q = t'.slice q := by
    unfold slice
    by_cases hlimit : q.limit ≤ 0
    · rw [if_pos hlimit, if_pos hlimit]
    rw [if_neg hlimit, if_neg hlimit]
    obtain ⟨⟨k, hk, hkey⟩, hordered⟩ := horder (by omega)
    have hdecides' : ∀ p ∈ q.predicates ++ q.after.toList, t.Decides p ∧ t'.Decides p := by
      intro p hp
      rcases List.mem_append.1 hp with hp | hp
      · exact hdecides p hp
      · exact hafter p (by simpa using hp)
    have hvisible' (row : Row)
        (h : ((q.predicates ++ q.after.toList).all fun p => t.accepts p row) = true) :
        visible row = true := by
      rw [List.all_append, Bool.and_eq_true] at h
      exact hvisible row h.1
    refine congrArg (ite _ _) ((select_congr hakin halike hdecides' hvisible').bind_eq ?_)
    rintro rows rows' ⟨hsame, hmem⟩
    rw [hsame.sort_eq hk hkey fun row hrow => hordered row (hmem row hrow),
      fetch_congr hakin.columns]
  unfold run
  rw [count?_congr hakin halike hdecides hvisible, hslice]

end Queries
end Store.Table

/-! ## Conditions of requests -/

namespace Store.Predicate

theorem isPlain_ordered {op : Comparison} {column : String} {v : Value} {p : Predicate}
    (h : ordered op column v = .ok p) : p.isPlain = true := by
  cases v <;> cases h <;> rfl

/-- Of the conditions of filters, only those of expressions and of long texts can be undecided. -/
theorem isPlain_of_criterion? {column : String} {c : FilterCriterion} {p : Predicate}
    (h : criterion? column c = .ok p) (hop : c.operator ≠ .regex) (hbrief : p.isBrief = true) :
    p.isPlain = true := by
  unfold criterion? at h
  cases hc : c.operator with
  | regex => exact absurd hc hop
  | custom =>
    rw [hc] at h
    cases h
  | equals =>
    rw [hc] at h
    cases h
    exact isPlain_equal column c.value
  | notEquals =>
    rw [hc] at h
    cases h
    cases c.value <;> rfl
  | gt | gte | lt | lte =>
    rw [hc] at h
    exact isPlain_ordered h
  | isNull | isNotNull =>
    rw [hc] at h
    cases h
    rfl
  | isIn | notIn =>
    rw [hc] at h
    obtain ⟨_, -, rfl⟩ := map_eq_ok.1 h
    rfl
  | contains | startsWith | endsWith =>
    rw [hc] at h
    obtain ⟨_, -, rfl⟩ := map_eq_ok.1 h
    exact hbrief
  | between =>
    rw [hc] at h
    obtain ⟨items, -, h⟩ := bind_eq_ok.1 h
    split at h
    · cases h
      rfl
    · cases h

theorem isPlain_beyond {column : String} {direction : Direction} {v : Value} {p : Predicate}
    (h : beyond column direction v = .ok p) : p.isPlain = true := by
  unfold beyond at h
  split at h
  · cases h
    rfl
  · exact isPlain_ordered h
  · cases h
    rfl
  · obtain ⟨q, hq, rfl⟩ := map_eq_ok.1 h
    simp [isPlain, isPlain_ordered hq]

theorem isPlain_after {sort : List SortCriterion} {position : List Value} {p : Predicate}
    (h : after sort position = .ok p) : p.isPlain = true :=
  closed_isPlain.after (fun _ _ _ => ⟨isPlain_equal _ _, fun _ => isPlain_beyond⟩) h

/-- A search whose texts are short is plain. -/
theorem isPlain_search {s : SearchSpec} (h : (search s).isBrief = true) :
    (search s).isPlain = true := by
  obtain ⟨term, fields⟩ := s
  unfold search at h ⊢
  induction fields with
  | nil => rfl
  | cons name fields ih =>
    cases fields with
    | nil => exact h
    | cons other fields =>
      obtain ⟨hhead, htail⟩ := Bool.and_eq_true_iff.1 h
      exact Bool.and_eq_true_iff.2 ⟨hhead, ih htail⟩

end Store.Predicate

/-- The text of the filter, if it has one, is not too long for the store. -/
def FilterCriterion.isBrief (c : FilterCriterion) : Bool :=
  match Predicate.criterion? c.field c with
  | .ok p => p.isBrief
  | .error _ => true

theorem FilterCriterion.isBrief_of_criterion? {c : FilterCriterion} (h : c.isBrief = true)
    {p : Predicate} (hp : Predicate.criterion? c.field c = .ok p) : p.isBrief = true := by
  rwa [isBrief, hp] at h

/-- No text of a filter or of the search is too long for the store. -/
def Specification.isBrief (spec : Specification) : Bool :=
  spec.filters.all FilterCriterion.isBrief && spec.search.all fun s => (Predicate.search s).isBrief

/-- The scopes that callers set: the whole table, the records of a parent, and the deleted
records. -/
inductive TrustedScope : List Predicate → Prop where
  | whole : TrustedScope []
  | related (column : String) (parent : Value) : TrustedScope [.equal column parent]
  | deleted (field : String) : TrustedScope [.isNotNull field]

theorem TrustedScope.isPlain {scope : List Predicate} (h : TrustedScope scope) :
    ∀ p ∈ scope, p.isPlain = true := by
  cases h with
  | whole => simp
  | related column parent => simpa using Predicate.isPlain_equal column parent
  | deleted field => simp [Predicate.isPlain]

namespace Executor

variable {x : Executor} {t : Table}

/-- A field of the kind of texts has a column of texts. -/
theorem type?_of_kind_text {md : Metadata} (hcolumns : t.columns = md.model.columns)
    {field : String} (hkind : md.kind field = .text) {type : ColumnType}
    (htype : t.type? field = some type) : type = .text := by
  obtain ⟨c, hc, rfl⟩ := Option.map_eq_some_iff.1 htype
  rw [hcolumns] at hc
  unfold Metadata.kind at hkind
  rw [hc] at hkind
  simp only at hkind
  split at hkind
  · cases hkind
  · revert hkind
    cases c.type with
    | numeric places asDecimal => cases asDecimal <;> simp [Kind.ofColumnType]
    | _ => simp [Kind.ofColumnType]

/-- An expression that can be read is decided for the cells of a column of texts. -/
theorem decides_pattern (hsound : t.Sound) {field : String}
    (htype : ∀ type, t.type? field = some type → type = .text) {s : String} {node : Pattern.Node}
    (hread : Pattern.read? t.characterNames s.toList = .ok node) :
    t.Decides (.pattern field (.text s)) := by
  intro c hc row hrow
  obtain ⟨operand, hoperand, rfl⟩ := Option.map_eq_some_iff.1 hc
  obtain ⟨type, htype', -⟩ := Option.bind_eq_some_iff.1 hoperand
  obtain ⟨column, hcolumn, rfl, hcolumnType⟩ := Table.type?_eq_some htype'
  have htext := (hsound row hrow column hcolumn).2
  rw [hcolumnType, htype type htype'] at htext
  have hexpression : t.expressionOf? (.text s) = some node := by
    simp [Table.expressionOf?, Value.text?, hread, Except.toOption]
  rw [hexpression]
  simp only [Condition.breaks]
  cases hcell : row.cell column.name with
  | null => rfl
  | text s => rfl
  | integer n =>
    rw [hcell] at htext
    exact absurd (htext rfl) (by simp [Cell.isTextOrNull])
  | real y =>
    rw [hcell] at htext
    exact absurd (htext rfl) (by simp [Cell.isTextOrNull])

section Decided

variable (hcolumns : t.columns = x.metadata.model.columns)
  (hnames : t.characterNames = x.metadata.model.characterNames) (hsound : t.Sound)
  (hcustom : ∀ e ∈ x.metadata.model.customFilters, ∀ column v, t.Decides (e.2 column v))

include hcolumns hnames hsound hcustom

theorem filterPredicate_decided {c : FilterCriterion} (hc : c.Readable x.metadata)
    (hbrief : c.isBrief = true) {p : Predicate} (h : x.filterPredicate c = .ok p) :
    t.Decides p := by
  unfold filterPredicate at h
  obtain ⟨column, hcolumn, h⟩ := bind_eq_ok.1 h
  obtain ⟨rfl, -⟩ := Metadata.column?_eq_ok hcolumn
  by_cases hop : c.operator = .custom
  · rw [if_pos hop] at h
    cases hfilter : x.metadata.customFilter? c.field with
    | none =>
      rw [hfilter] at h
      cases h
    | some condition =>
      rw [hfilter] at h
      cases h
      obtain ⟨before, after, hmem, -⟩ := List.lookup_eq_some_iff.1 hfilter
      exact hcustom (c.field, condition) (by rw [hmem]; simp) c.field c.value
  · rw [if_neg hop] at h
    by_cases hregex : c.operator = .regex
    · obtain ⟨hkind, s, node, hvalue, hread⟩ := hc hregex
      rw [Predicate.criterion?, hregex, hvalue] at h
      cases h
      exact decides_pattern hsound (fun _ => type?_of_kind_text hcolumns hkind) (hnames ▸ hread)
    · exact Table.decides_of_isPlain
        (Predicate.isPlain_of_criterion? h hregex (FilterCriterion.isBrief_of_criterion? hbrief h))

/-- The conditions of a validated request in a trusted scope are decided for every row. -/
theorem predicates_decided {req : ExecutionRequest}
    (hfilters : ∀ c ∈ req.spec.filters, c.Readable x.metadata) (hbrief : req.spec.isBrief = true)
    (hscope : TrustedScope req.scope) {ps : List Predicate} (h : x.predicates req = .ok ps) :
    ∀ p ∈ ps, t.Decides p := by
  obtain ⟨filters, visibility, hall, hvisibility, rfl⟩ := predicates_eq_ok h
  obtain ⟨hbriefFilters, hbriefSearch⟩ := Bool.and_eq_true_iff.1 hbrief
  intro p hp
  simp only [List.mem_append] at hp
  rcases hp with ((hp | hp) | hp) | hp
  · obtain ⟨c, hc, hpc⟩ := exists_of_mem_right hall hp
    exact filterPredicate_decided hcolumns hnames hsound hcustom (hfilters c hc)
      (List.all_eq_true.1 hbriefFilters c hc) hpc
  · obtain ⟨s, hs, rfl⟩ : ∃ s, req.spec.search = some s ∧ Predicate.search s = p := by
      simpa using hp
    rw [hs] at hbriefSearch
    exact Table.decides_of_isPlain (Predicate.isPlain_search hbriefSearch)
  · refine Table.decides_of_isPlain ?_
    rw [visibility_eq_ok hvisibility] at hp
    split at hp
    · split at hp
      · cases hp
      · rw [List.mem_singleton.1 hp]
        rfl
    · cases hp
  · exact Table.decides_of_isPlain (hscope.isPlain p hp)

end Decided

/-! ## Executions -/

/-- What two stores answer to the query for a slice, and to the count of what it selects from, is
all that an execution depends on. -/
theorem execute_congr {s s' : RecordQuery.Store} {req : ExecutionRequest} (now : Calendar.DateTime)
    (h : ∀ q, x.pageQuery req (x.metadata.effectiveSort req.spec.sort) = .ok q →
      s q = s' q ∧ s (countQuery q) = s' (countQuery q)) :
    x.execute s req now = x.execute s' req now := by
  apply execute_related
  intro q hq query hquery
  have hsame : s query = s' query := by
    obtain ⟨hpage, hcount⟩ := h q hq
    rcases List.mem_pair.1 hquery with rfl | rfl
    · exact hpage
    · exact hcount
  rw [hsame]
  apply Matched.refl
  exact fun reply => ⟨List.forall₂_same.2 fun _ _ => ⟨rfl, rfl⟩, rfl⟩

theorem isPlain_keyset {sort : List SortCriterion} {pagination : Pagination}
    {after : Option Predicate} (h : x.keyset sort pagination = .ok after) :
    ∀ p ∈ after, p.isPlain = true := by
  unfold keyset at h
  split at h
  · obtain ⟨_, -, h⟩ := bind_eq_ok.1 h
    obtain ⟨p, hp, rfl⟩ := map_eq_ok.1 h
    simpa using Predicate.isPlain_after hp
  · cases h
    simp

end Executor

/-! ## Requests -/

/-- Deleted records count for the request. -/
def ListingRequest.showsDeleted (req : ListingRequest) : Bool :=
  req.deletedOnly || match DraftQuery.read req.params with
    | .ok draft => (Validator.checkIncludeDeleted draft.includeDeleted).accepted
    | .error _ => false

/-- The row is in the scope of the request and is not a deleted one that it does not show. -/
def Metadata.reveals (md : Metadata) (t : Table) (req : ListingRequest) (row : Row) : Bool :=
  (req.scope.all fun p => t.accepts p row) &&
    (req.showsDeleted || md.model.softDeleteField.all fun field => (row.cell field).isNull)

namespace Listing

variable {l : Listing}

/-- Deleted records count for a plan if they do for its request. -/
theorem includeDeleted_of_plan {req : ListingRequest} {format : Format}
    {execution : ExecutionRequest} (h : l.plan req = .ok (format, execution)) :
    execution.spec.includeDeleted = req.showsDeleted := by
  obtain ⟨draft, spec, hdraft, -, hspec, rfl⟩ := plan_eq_ok.1 h
  obtain ⟨c, hc, rfl, -⟩ := specify_eq_ok.1 hspec
  obtain ⟨filters, sorts, pagination, -, -, -, -, haccepted⟩ := Validator.check_eq_ok hc
  have hshaped : (shaped format draft).includeDeleted = draft.includeDeleted := by
    unfold shaped
    split <;> rfl
  simp only [ListingRequest.showsDeleted, hdraft]
  cases req.deletedOnly with
  | true => rfl
  | false => simp [haccepted, hshaped]

/-- What the conditions of a plan accept is revealed by its request. -/
theorem reveals_of_accepted {md : Metadata} (hl : l.IsFor md) {t : Table} {req : ListingRequest}
    {format : Format} {execution : ExecutionRequest} (h : l.plan req = .ok (format, execution))
    {ps : List Predicate} (hps : l.executor.predicates execution = .ok ps) {row : Row}
    (hrow : (ps.all fun p => t.accepts p row) = true) : md.reveals t req row = true := by
  have hdeleted := includeDeleted_of_plan h
  obtain ⟨draft, spec, -, -, -, rfl⟩ := plan_eq_ok.1 h
  obtain ⟨filters, visibility, -, hvisibility, rfl⟩ := Executor.predicates_eq_ok hps
  simp only [List.all_append, Bool.and_eq_true] at hrow
  obtain ⟨⟨-, hvisible⟩, hscope⟩ := hrow
  rw [Metadata.reveals, Bool.and_eq_true]
  refine ⟨hscope, ?_⟩
  rw [Executor.visibility_eq_ok hvisibility, hdeleted, hl.executor] at hvisible
  cases hfield : md.model.softDeleteField with
  | none => simp
  | some field =>
    simp only [hfield] at hvisible
    cases hshows : req.showsDeleted with
    | true => simp
    | false => simpa [hshows, Table.accepts_isNull] using hvisible

/-- No parameter lets a request see or count a row that is out of its scope or hidden: tables that
show it the same rows give it the same answer. -/
theorem run_confined {md : Metadata} (hl : l.IsFor md) {t t' : Table}
    (hcolumns : t.columns = md.model.columns) (hcolumns' : t'.columns = md.model.columns)
    (hnames : t.characterNames = md.model.characterNames)
    (hnames' : t'.characterNames = md.model.characterNames) (hsound : t.Sound) (hsound' : t'.Sound)
    (hcustom : ∀ e ∈ md.model.customFilters, ∀ column v,
      t.Decides (e.2 column v) ∧ t'.Decides (e.2 column v))
    {req : ListingRequest} (hscope : TrustedScope req.scope)
    (hbrief : ∀ planned, l.plan req = .ok planned → planned.2.spec.isBrief = true)
    (halike : Table.Alike md.model.uniqueKey (t.rows.filter (md.reveals t req))
      (t'.rows.filter (md.reveals t req)))
    (now : Calendar.DateTime) : l.run t.run req now = l.run t'.run req now := by
  have hakin : t.Akin t' := ⟨by rw [hcolumns, hcolumns'], by rw [hnames, hnames']⟩
  have hmd : l.executor.metadata = md := hl.executor
  cases hplan : l.plan req with
  | error e => rw [run_of_plan_error hplan, run_of_plan_error hplan]
  | ok planned =>
    obtain ⟨format, execution⟩ := planned
    apply run_congr hplan
    apply Executor.execute_congr
    intro q hq
    obtain ⟨ps, after, hps, hafter, hsort, rfl⟩ := Executor.pageQuery_eq_ok hq
    have hreadable := readable_of_plan hplan
    rw [hl.validator] at hreadable
    have htrusted : TrustedScope execution.scope := by
      obtain ⟨draft, spec, -, -, -, rfl⟩ := plan_eq_ok.1 hplan
      exact hscope
    have hdecides : ∀ p ∈ ps, t.Decides p ∧ t'.Decides p := fun p hp =>
      ⟨Executor.predicates_decided (hmd ▸ hcolumns) (hmd ▸ hnames) hsound
        (fun e he column v => (hcustom e (hmd ▸ he) column v).1) (hmd ▸ hreadable)
        (hbrief _ hplan) htrusted hps p hp,
      Executor.predicates_decided (hmd ▸ hcolumns') (hmd ▸ hnames') hsound'
        (fun e he column v => (hcustom e (hmd ▸ he) column v).2) (hmd ▸ hreadable)
        (hbrief _ hplan) htrusted hps p hp⟩
    have hvisible (row : Row) (hrow : (ps.all fun p => t.accepts p row) = true) :=
      reveals_of_accepted hl hplan hps hrow
    constructor
    · refine Table.run_congr hakin halike hdecides ?_ hvisible fun _ => ⟨?_, ?_⟩
      · exact fun p hp => ⟨Table.decides_of_isPlain (Executor.isPlain_keyset hafter p hp),
          Table.decides_of_isPlain (Executor.isPlain_keyset hafter p hp)⟩
      · rw [hmd]
        exact md.uniqueKey_mem_sortKeys execution.spec.sort
      · exact fun row hrow => Executor.ordered_of_sound (hmd ▸ hcolumns) hsound hsort hrow
    · apply Table.run_congr hakin halike hdecides (by simp [Executor.countQuery]) hvisible
      intro hlimit
      cases hlimit

/-- A listing of the quotes of films. -/
def quoteListing : Listing where
  validator := .ofMetadata ⟨Catalog.movieQuotes, 20, 100⟩ none true none 0
  executor := { metadata := ⟨Catalog.movieQuotes, 20, 100⟩ }

/-- Identifiers of quotes and films, whose digits are no numbers. -/
def numbered (n : Nat) : Cell :=
  .text (.ofList (Uuid.hexDigits 32 (0xabcdef00000040008000000000000000 + n)))

/-- A row for a quote of a film. -/
def quoteRow (id movie : Nat) (deleted : Cell) : Row :=
  [("id", numbered id), ("movie_id", numbered movie), ("deleted_at", deleted)]

/-- Two quotes of the film 7, and one of another film. -/
def quotesBefore : Table where
  columns := Catalog.movieQuotes.columns
  rows := [quoteRow 1 7 .null, quoteRow 2 7 .null, quoteRow 3 8 .null]

/-- The same two quotes in other places, a deleted one, and one of a third film. -/
def quotesAfter : Table where
  columns := Catalog.movieQuotes.columns
  rows := [quoteRow 4 9 .null, quoteRow 2 7 .null,
    quoteRow 5 7 (.text "2026-01-01 00:00:00.000000"), quoteRow 1 7 .null]

/-- A request for the quotes of the film 7. -/
def quotesOfSeven : ListingRequest where
  params := [("pageSize", .text "1"), ("sort", .text "-character"), ("includeTotal", .text "true")]
  scope := [.equal "movie_id" (.uuid { value := 0xabcdef00000040008000000000000007 })]

theorem quotesOfSeven_confined :
    (quotesBefore.rows.length, quotesAfter.rows.length) = (3, 4) ∧
      quoteListing.run quotesBefore.run quotesOfSeven { date := default }
        = quoteListing.run quotesAfter.run quotesOfSeven { date := default } := by
  have hl : quoteListing.IsFor ⟨Catalog.movieQuotes, 20, 100⟩ := ⟨rfl, rfl⟩
  have hbrief : ((quoteListing.plan quotesOfSeven).toOption.all fun planned =>
      planned.2.spec.isBrief) = true := by decide +kernel
  refine ⟨rfl, run_confined hl rfl rfl rfl rfl (by decide +kernel) (by decide +kernel) ?_
    (.related _ _) ?_ (.inr ⟨?_, ?_⟩) _⟩
  · intro e he
    cases he
  · intro planned hplan
    rwa [hplan] at hbrief
  · decide +kernel
  · decide +kernel

/-! ## Conditions that the store refuses -/

section Filters

variable {filters : List FilterCriterion}

/-- The draft of a request of filters only. -/
def draftOf (filters : List DraftFilter) : DraftQuery :=
  { grammar := .simple, filters, search := { term := .text "" }, paramCount := filters.length }

/-- What is executed for a few filters. -/
def executionWith (filters : List FilterCriterion) (scope : List Predicate) :
    ExecutionRequest where
  spec := {
    filters
    pagination := .offset {
      page := 1, pageSize := 20, page_pos := Nat.one_pos, size_pos := Nat.le_add_left 1 19 } }
  needsTotal := true
  scope

theorem plan_of_filters {params : Params} {drafts : List DraftFilter}
    (hread : DraftQuery.read params = .ok (draftOf drafts))
    (hfilters : List.Forall₂ (fun draft c =>
      quoteListing.validator.metadata.checkFilter draft = .ok c) drafts filters)
    (scope : List Predicate) :
    quoteListing.plan { params, scope } = .ok (.standard, executionWith filters scope) := by
  have hcheck : quoteListing.validator.check (draftOf drafts) =
      .ok { accepted := (executionWith filters scope).spec } := by
    rw [Validator.check, draftOf, gather_eq_ok hfilters]
    rfl
  have hformat : Format.resolve (.text Format.standard.id) "standard" = .ok .standard := rfl
  exact plan_eq_ok.2 ⟨_, _, hread, hformat, specify_eq_ok.2 ⟨_, hcheck, rfl, by simp⟩, rfl⟩

/-- The query for the first page of what some conditions select. -/
def queryWith (predicates : List Predicate) : StoreQuery :=
  { predicates, orderBy := [⟨"sort_order", .asc⟩, ⟨"id", .asc⟩], limit := 21, withTotal := true
    timeout := quoteListing.executor.queryTimeout }

theorem run_queryWith {t : Table} {predicates : List Predicate}
    (hselect : t.select predicates = .ok []) :
    t.run (queryWith predicates) = .ok { total := some 0 } := by
  have hlimit : 0 < (queryWith predicates).limit := by simp [queryWith]
  have hrange : ((queryWith predicates).offset : Int) ≤ greatestInteger ∧
      (queryWith predicates).limit ≤ greatestInteger := by simp [queryWith, greatestInteger]
  rw [Table.run_eq_fetch hlimit hrange (by simpa [queryWith] using hselect)
    (Table.count?_eq_ok hselect)]
  simp [Table.sort, Table.fetch, Except.map, queryWith]

/-- The answer to a request of filters if the store finds nothing for it. -/
def emptyAnswer (filters : List FilterCriterion) (scope : List Predicate)
    (now : Calendar.DateTime) : Except ListingError Entries := do
  let envelope ← (quoteListing.executor.finish (executionWith filters scope)
    (quoteListing.executor.metadata.effectiveSort []) now
    { rows := [], hasMore := false, total := some 0 }).mapError .execution
  (Format.standard.render envelope).mapError .ofFault

/-- A request of filters has the empty answer if the store finds nothing for it, and fails with the
store. -/
theorem run_of_filters {req : ListingRequest} {predicates : List Predicate}
    (hplan : quoteListing.plan req = .ok (.standard, executionWith filters req.scope))
    (hpredicates : quoteListing.executor.predicates (executionWith filters req.scope) =
      .ok predicates) (store : RecordQuery.Store) (now : Calendar.DateTime) :
    (store (queryWith predicates) = .ok { total := some 0 } →
      quoteListing.run store req now = emptyAnswer filters req.scope now) ∧
    (∀ e, store (queryWith predicates) = .error e →
      (quoteListing.run store req now).isOk = false) := by
  have hquery : quoteListing.executor.pageQuery (executionWith filters req.scope)
      (quoteListing.executor.metadata.effectiveSort []) = .ok (queryWith predicates) := by
    unfold Executor.pageQuery
    rw [hpredicates]
    rfl
  have hsort : (executionWith filters req.scope).spec.sort = [] := rfl
  unfold run
  rw [hplan]
  simp only [Executor.execute, bind, Except.bind]
  rw [hsort, hquery]
  constructor
  · intro hstore
    simp only [hstore]
    rfl
  · intro e hstore
    simp only [hstore]
    rfl

end Filters

/-- A table of no quotes. -/
def noQuotes : Table where
  columns := Catalog.movieQuotes.columns

/-- A deleted quote of the film 7, and one of another film. -/
def hiddenQuotes : Table where
  columns := Catalog.movieQuotes.columns
  rows := [("character", .text "Rick") :: quoteRow 1 7 (.text "2026-01-01 00:00:00.000000"),
    quoteRow 2 8 .null]

/-- The quotes with a filter of their own for characters, by an expression that is not checked. -/
def freeListing : Listing :=
  let model := { Catalog.movieQuotes with
    customFilters := [("character", fun column v => .pattern column v)] }
  { validator := .ofMetadata ⟨model, 20, 100⟩ none true none 0
    executor := { metadata := ⟨model, 20, 100⟩ } }

/-- A request for the quotes of the film 7 by characters whose name has the text. -/
def quotesWith (text : String) : ListingRequest where
  params := [("filter[character][contains]", .text text)]
  scope := quotesOfSeven.scope

/-- The filter of such a request as it is drafted, and as it is applied. -/
def draftedText (text : String) : DraftFilter :=
  { field := "character", operator := "contains", value := .text text }

def hasText (text : String) : FilterCriterion :=
  { field := "character", operator := .contains, value := .text text, valueType := "text"
    caseSensitive := false }

theorem checkFilter_text {text : String} (h : text ≠ "") :
    quoteListing.validator.metadata.checkFilter (draftedText text) = .ok (hasText text) := by
  have htext : (Value.text text).toText = text := String.ofList_toList
  have hname : Operator.ofName? "contains" = some .contains := by decide
  have hblank : Metadata.isBlankFor .text (.text text) = false := by simp [Metadata.isBlankFor]
  have hkind : quoteListing.validator.metadata.kind "character" = .text := by decide
  have hoperand : quoteListing.validator.metadata.operand "character" .contains (.text text)
      = .ok (.text text) := by
    change quoteListing.validator.metadata.singleOperand "character" .contains (.text text) = _
    rw [Metadata.singleOperand, hkind, hblank, htext, if_neg h]
    rfl
  simp only [Metadata.checkFilter, draftedText, hname, hoperand]
  rfl

theorem readKey?_character : Brackets.readKey? "filter[character][contains]"
    = some ("filter", ["character", "contains"]) := by decide +kernel

theorem fieldName_character : fieldName (.text "character") = "character" := by decide +kernel

theorem fieldFilters_character (text : String) :
    Simple.fieldFilters "character" (.mapping [("contains", .text text)])
      = [draftedText text] := by
  have hoperator : canonicalOperator (.text "contains") = "contains" := by decide +kernel
  have hoperand : operandOf "contains" (.text text) = .text text := rfl
  simp only [Simple.fieldFilters, List.map_singleton, hoperator, hoperand]
  rfl

theorem read_quotesWith (text : String) :
    DraftQuery.read (quotesWith text).params = .ok (draftOf [draftedText text]) := by
  have htree : (quotesWith text).params.tree "filter"
      = [("character", .mapping [("contains", .text text)])] := by
    rw [Params.tree, quotesWith, List.foldl_cons, readKey?_character]
    rfl
  have hfilters : Simple.filters (quotesWith text).params = [draftedText text] := by
    simp only [Simple.filters, htree, List.flatMap_singleton, fieldName_character,
      fieldFilters_character]
    rfl
  change Except.ok (Simple.read (quotesWith text).params) = _
  rw [Simple.read, hfilters]
  rfl

theorem plan_quotesWith {text : String} (h : text ≠ "") : quoteListing.plan (quotesWith text)
    = .ok (.standard, executionWith [hasText text] (quotesWith text).scope) :=
  plan_of_filters (read_quotesWith text) (.cons (checkFilter_text h) .nil) _

theorem predicates_quotesWith (text : String) :
    quoteListing.executor.predicates (executionWith [hasText text] (quotesWith text).scope)
      = .ok (.contains true .anywhere "character" text :: .isNull "deleted_at" ::
        quotesOfSeven.scope) := rfl

/-- A request for the quotes of the film 7 with an expression for characters. -/
def quotesMatching (expression : String) : ListingRequest where
  params := [("filter[character][custom]", .text expression)]
  scope := quotesOfSeven.scope

/-- Rows that a request does not reveal show in two ways, both of them as a failure: by a text that
is too long for the store, and by a condition of the model's own that the store cannot decide. -/
theorem hidden_rows_refuse :
    (hiddenQuotes.rows.filter
        (quoteListing.executor.metadata.reveals hiddenQuotes (quotesWith longText)) = [] ∧
      (quoteListing.run noQuotes.run (quotesWith longText) { date := default }).isOk = true ∧
      (quoteListing.run hiddenQuotes.run (quotesWith longText) { date := default }).isOk
        = false) ∧
    hiddenQuotes.rows.filter
        (freeListing.executor.metadata.reveals hiddenQuotes (quotesMatching "(")) = [] ∧
      (freeListing.run noQuotes.run (quotesMatching "(") { date := default }).isOk = true ∧
      (freeListing.run hiddenQuotes.run (quotesMatching "(") { date := default }).isOk
        = false := by
  have hrun := run_of_filters (plan_quotesWith longText_ne) (predicates_quotesWith longText)
  refine ⟨⟨?_, ?_, ?_⟩, by decide +kernel, by decide +kernel, by decide +kernel⟩
  · have hshows : (quotesWith longText).showsDeleted = false := by
      rw [ListingRequest.showsDeleted, read_quotesWith]
      rfl
    have hreveals : quoteListing.executor.metadata.reveals hiddenQuotes (quotesWith longText)
        = fun row => (quotesOfSeven.scope.all fun p => hiddenQuotes.accepts p row) &&
          (row.cell "deleted_at").isNull := by
      funext row
      rw [Metadata.reveals, hshows]
      rfl
    rw [hreveals]
    decide +kernel
  · have hselect : noQuotes.select (.contains true .anywhere "character" longText ::
        .isNull "deleted_at" :: quotesOfSeven.scope) = .ok [] := rfl
    rw [(hrun noQuotes.run _).1 (run_queryWith hselect)]
    rfl
  · exact (hrun hiddenQuotes.run _).2 Table.refused
      (Table.run_contains_eq_refused longText_refused (by simp [hiddenQuotes]) rfl rfl)

end Listing
end RecordQuery
