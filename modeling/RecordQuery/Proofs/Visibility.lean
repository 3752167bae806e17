import RecordQuery.Proofs.Parameters
import RecordQuery.Proofs.Slices

/-!
# Live and deleted records

A model that keeps deleted records has three listings: of its live records, of its deleted ones, and
of both.

* `Listing.plan_including`: what a request says of deleted records only decides whether its plan
  includes them.
* `Executor.narrowed`: a further condition that is always decided narrows what a request matches.
* `Listing.live_or_deleted`: the live and the deleted records that a request matches are all that it
  matches, and none is both.
-/

namespace RecordQuery

open RecordQuery.Store RecordQuery.Calendar

/-! ## Drafts -/

/-- The draft with what was said of deleted records, and a number of parameters. -/
def DraftQuery.including (draft : DraftQuery) (raw : Value) (count : Nat) : DraftQuery :=
  { draft with includeDeleted := raw, paramCount := count }

section Drafts

open Params (visibilityKeys)

variable (params : Params) (v : Value) {key : String} (hkey : key ∈ visibilityKeys)

include hkey

theorem DraftQuery.withShared_put_visibility (draft : DraftQuery) :
    draft.withShared (params.put key v)
      = (draft.withShared params).including (Params.first (params.put key v) visibilityKeys)
        (params.put key v).length := by
  have hcursor : ∀ key ∈ visibilityKeys, key ∉ ["cursor", "after"] := by decide
  have hformat : ∀ key ∈ visibilityKeys, key ∉ ["responseFormat", "format"] := by decide
  have htotal : ∀ key ∈ visibilityKeys, key ∉ ["includeTotal", "include_total"] := by decide
  unfold withShared
  simp only [Params.first_put params v (hcursor key hkey),
    Params.first_put params v (hformat key hkey), Params.first_put params v (htotal key hkey)]
  rfl

/-- What is said of deleted records changes nothing else of what is read. -/
theorem DraftQuery.read_put_visibility :
    read (params.put key v) = (read params).map fun draft =>
      draft.including (Params.first (params.put key v) visibilityKeys)
        (params.put key v).length := by
  have hcursor : ∀ key ∈ visibilityKeys, key ∉ ["cursor", "after"] := by decide
  rw [read_put params v (Params.aside_of_mem_visibilityKeys key hkey) (hcursor key hkey)]
  cases h : read params with
  | error e => rfl
  | ok draft =>
    have hshared := withShared_put_visibility params v hkey draft
    rw [withShared_of_read h] at hshared
    exact congrArg Except.ok hshared

end Drafts

theorem DraftQuery.includeDeleted_of_read {params : Params} {draft : DraftQuery}
    (h : read params = .ok draft) :
    draft.includeDeleted = params.first Params.visibilityKeys := by
  rw [← withShared_of_read h]
  rfl

theorem Listing.shaped_including (format : Format) (draft : DraftQuery) (raw : Value)
    (count : Nat) :
    shaped format (draft.including raw count) = (shaped format draft).including raw count := by
  unfold shaped
  have hkind : (draft.including raw count).pagination.kind = draft.pagination.kind := rfl
  rw [hkind]
  split <;> rfl

theorem Listing.includeDeleted_shaped (format : Format) (draft : DraftQuery) :
    (shaped format draft).includeDeleted = draft.includeDeleted := by
  unfold shaped
  split <;> rfl

/-! ## Plans -/

namespace Validator

/-- A missing value says nothing. -/
theorem checkIncludeDeleted_missing {raw : Value} (h : raw.isMissing = true) :
    checkIncludeDeleted raw = { accepted := false } := by
  rw [checkIncludeDeleted, if_pos h]

/-- What is said of deleted records is checked without regard to the rest of a draft. -/
theorem check_including (v : Validator) {draft : DraftQuery}
    (hnone : draft.includeDeleted = .null) (raw : Value) (count : Nat) :
    Matched (fun c c' : Checked Specification =>
        (∀ violation, violation ∈ c'.violations ↔
          violation ∈ (checkIncludeDeleted raw).violations ∨ violation ∈ c.violations) ∧
        c'.accepted = { c.accepted with includeDeleted := (checkIncludeDeleted raw).accepted })
      (v.check draft) (v.check (draft.including raw count)) := by
  have hsilent : (checkIncludeDeleted draft.includeDeleted).violations = [] := by
    rw [hnone, checkIncludeDeleted_missing rfl]
  unfold check
  refine Matched.bind (R := Eq) (Matched.refl (fun _ => rfl) _) ?_
  rintro filters _ rfl
  refine Matched.bind (R := Eq) (Matched.refl (fun _ => rfl) _) ?_
  rintro sorts _ rfl
  refine Matched.bind (R := Eq) (Matched.refl (fun _ => rfl) _) ?_
  rintro pagination _ rfl
  refine .ok ⟨fun violation => ?_, rfl⟩
  simp only [List.mem_append, hsilent, List.not_mem_nil, or_false, DraftQuery.including]
  tauto

end Validator

/-- The same execution, with or without deleted records. -/
def ExecutionRequest.including (execution : ExecutionRequest) (shown : Bool) : ExecutionRequest :=
  { execution with spec := { execution.spec with includeDeleted := shown } }

theorem ExecutionRequest.including_self {execution : ExecutionRequest} {shown : Bool}
    (h : execution.spec.includeDeleted = shown) : execution.including shown = execution := by
  subst h
  rfl

namespace Listing

variable {l : Listing}

/-- A draft that says something of deleted records has the specification of the one that says
nothing, but for what it says, if that can be read. -/
theorem specify_including {draft : DraftQuery} (hnone : draft.includeDeleted = .null) (raw : Value)
    (count : Nat) {spec : Specification} :
    l.specify (draft.including raw count) = .ok spec ↔
      (∀ violation ∈ (Validator.checkIncludeDeleted raw).violations,
        l.validator.drops violation = true) ∧
      ∃ plain, l.specify draft = .ok plain ∧
        spec = { plain with includeDeleted := (Validator.checkIncludeDeleted raw).accepted } := by
  have hmatched := l.validator.check_including hnone raw count
  simp only [specify_eq_ok]
  generalize l.validator.check draft = checked at hmatched ⊢
  generalize l.validator.check (draft.including raw count) = checked' at hmatched ⊢
  cases hmatched with
  | error f => simp
  | @ok c c' h =>
    obtain ⟨hviolations, haccepted⟩ := h
    simp only [Except.ok.injEq, exists_eq_left', hviolations, or_imp, forall_and, haccepted]
    constructor
    · rintro ⟨rfl, hraw, hrest⟩
      exact ⟨hraw, _, ⟨rfl, hrest⟩, rfl⟩
    · rintro ⟨hraw, _, ⟨rfl, hrest⟩, rfl⟩
      exact ⟨rfl, hraw, hrest⟩

/-- Whether its plan includes deleted records is all that a request says by a value for that. A
request for deleted records only includes them anyway. -/
theorem plan_including (req : ListingRequest)
    (hnone : req.params.first Params.visibilityKeys = .null) {key : String}
    (hkey : key ∈ Params.visibilityKeys) (v : Value) {format : Format}
    {execution : ExecutionRequest} :
    l.plan { req with params := req.params.put key v } = .ok (format, execution) ↔
      (∀ violation ∈ (Validator.checkIncludeDeleted (Params.last v)).violations,
        l.validator.drops violation = true) ∧
      ∃ plain, l.plan req = .ok (format, plain) ∧ execution = plain.including
        (req.deletedOnly || (Validator.checkIncludeDeleted (Params.last v)).accepted) := by
  have hraw : Validator.checkIncludeDeleted (Params.first (req.params.put key v)
      Params.visibilityKeys) = Validator.checkIncludeDeleted (Params.last v) := by
    rw [Params.first_put_of_mem req.params v hkey hnone]
    by_cases hmissing : (Params.last v).isMissing = true
    · rw [if_pos hmissing, Validator.checkIncludeDeleted_missing hmissing,
        Validator.checkIncludeDeleted_missing rfl]
    · rw [if_neg hmissing]
  have hsilent {draft : DraftQuery} (hdraft : DraftQuery.read req.params = .ok draft)
      (format : Format) : (shaped format draft).includeDeleted = .null := by
    rw [includeDeleted_shaped, DraftQuery.includeDeleted_of_read hdraft, hnone]
  simp only [plan_eq_ok, DraftQuery.read_put_visibility req.params v hkey, map_eq_ok]
  constructor
  · rintro ⟨_, spec, ⟨draft, hdraft, rfl⟩, hformat, hspec, rfl⟩
    rw [shaped_including, specify_including (hsilent hdraft format), hraw] at hspec
    obtain ⟨hdrops, plain, hplain, rfl⟩ := hspec
    refine ⟨hdrops, _, ⟨draft, plain, hdraft, hformat, hplain, rfl⟩, ?_⟩
    rw [shaped_including]
    cases req.deletedOnly <;> rfl
  · rintro ⟨hdrops, _, ⟨draft, plain, hdraft, hformat, hplain, rfl⟩, rfl⟩
    refine ⟨_, { plain with
      includeDeleted := (Validator.checkIncludeDeleted (Params.last v)).accepted },
      ⟨draft, hdraft, rfl⟩, hformat, ?_, ?_⟩
    · rw [shaped_including, specify_including (hsilent hdraft format), hraw]
      exact ⟨hdrops, plain, hplain, rfl⟩
    · rw [shaped_including]
      cases req.deletedOnly <;> rfl

end Listing

/-! ## Conditions -/

namespace Executor

variable {x : Executor} {t : Table} {req req' : ExecutionRequest}

/-- The conditions of the request can be decided for the table. -/
def Selects (x : Executor) (t : Table) (req : ExecutionRequest) : Prop :=
  ∃ ps, x.predicates req = .ok ps ∧ t.select ps = .ok (x.matching t req)

/-- A further condition that is always decided narrows what a request matches. -/
theorem matching_narrowed {p : Predicate}
    (h : x.predicates req' = (x.predicates req).map (· ++ [p])) :
    x.matching t req' = (x.matching t req).filter (t.accepts p) := by
  unfold matching
  rw [h]
  cases x.predicates req with
  | error f => rfl
  | ok ps =>
    simp only [Except.map, List.filter_filter]
    apply List.filter_congr
    intro row _
    simp [Bool.and_comm]

theorem selects_narrowed {p : Predicate} (hp : t.Sturdy p)
    (h : x.predicates req' = (x.predicates req).map (· ++ [p])) :
    x.Selects t req' ↔ x.Selects t req := by
  constructor
  · rintro ⟨ps', hps', hselect⟩
    rw [h] at hps'
    obtain ⟨ps, hps, rfl⟩ := map_eq_ok.1 hps'
    refine ⟨ps, hps, ?_⟩
    rw [Table.select_of_append hselect, matching, hps]
  · rintro ⟨ps, hps, hselect⟩
    obtain ⟨c, hc⟩ := Option.isSome_iff_exists.1 hp.form
    refine ⟨ps ++ [p], by rw [h, hps]; rfl, ?_⟩
    rw [matching_narrowed h]
    exact Table.select_append hselect hc (Table.breaks_of_isPlain hp.plain hc)

/-- The conditions of the filters and of the search. -/
def criteria (x : Executor) (spec : Specification) : Except Fault (List Predicate) := do
  let filters ← spec.filters.mapM x.filterPredicate
  let search ← match spec.search with
    | some s => (x.searchPredicate s).map ([·])
    | none => pure []
  return filters ++ search

theorem predicates_of_visibility {visible : List Predicate}
    (h : x.visibility req.spec = .ok visible) :
    x.predicates req = (x.criteria req.spec).map (· ++ visible ++ req.scope) := by
  unfold predicates criteria
  rw [h]
  cases req.spec.filters.mapM x.filterPredicate with
  | error f => rfl
  | ok filters =>
    cases req.spec.search with
    | none => rfl
    | some s =>
      change ((x.searchPredicate s).map _ >>= _) = ((x.searchPredicate s).map _ >>= _).map _
      cases x.searchPredicate s <;> rfl

/-! ## Totals -/

/-- A reply has a total if it is asked for, which is that of all matching rows. -/
theorem total_of_reply {q : StoreQuery} {reply : StoreReply} {ps : List Predicate}
    (hps : x.predicates req = .ok ps) (hq : q.predicates = ps) (h : t.run q = .ok reply) :
    reply.total = if q.withTotal then some (x.matching t req).length else none := by
  obtain ⟨total, hcount, h⟩ := bind_eq_ok.1 h
  obtain ⟨rows, -, h⟩ := bind_eq_ok.1 h
  rw [pure_eq_ok] at h
  subst h
  unfold Table.count? at hcount
  cases hasked : q.withTotal with
  | false =>
    rw [hasked, if_neg Bool.false_ne_true] at hcount
    exact (Except.ok.inj hcount).symm
  | true =>
    rw [hasked, if_pos rfl, hq] at hcount
    obtain ⟨selected, hselected, rfl⟩ := map_eq_ok.1 hcount
    rw [Table.select_eq_filter hselected, if_pos rfl, matching, hps]

/-- A slice that ends before it starts tells no total but one that is asked for. -/
theorem total_of_negative (hlimit : req.spec.pagination.limit < 0) {now : DateTime} {e : Envelope}
    (h : (x.execute t.run req now).result = .ok e) :
    e.totalCount = if req.needsTotal then some ((x.matching t req).length : Int) else none := by
  obtain ⟨q, reply, hq, hreply, hcomplete⟩ := execute_eq_ok h
  obtain ⟨ps, after, hps, -, -, rfl⟩ := pageQuery_eq_ok hq
  obtain ⟨total, henvelope, -, hknown⟩ := complete_eq_ok hcomplete
  obtain ⟨-, -, htotal⟩ := envelope_eq_ok henvelope
  have hasked := total_of_reply hps rfl hreply
  have hmore : (Batch.ofReply req.spec.pagination.limit reply).hasMore = true := by
    simp only [Batch.ofReply, decide_eq_true_eq]
    omega
  have hneeds : (Batch.ofReply req.spec.pagination.limit reply).needsCount req.spec.pagination
      = false := by
    by_contra hneeds
    rw [Batch.hasMore_of_needsCount (Bool.eq_true_of_not_eq_false hneeds)] at hmore
    cases hmore
  have hreplied : total = reply.total := by
    rw [hknown hneeds, Batch.knownTotal, hmore]
    cases hcursor : req.spec.pagination.isCursor with
    | true => rfl
    | false => cases hknown : reply.total <;> simp [Batch.ofReply, hknown]
  rw [htotal, hreplied, hasked]
  cases req.needsTotal <;> rfl

/-- A total is that of all matching rows, and one that is asked for is there. -/
theorem total_of_execute (hcolumns : t.columns = x.metadata.model.columns) (hsound : t.Sound)
    {now : DateTime} {e : Envelope} (h : (x.execute t.run req now).result = .ok e) :
    (∀ n, e.totalCount = some n → n = (x.matching t req).length) ∧
      (req.needsTotal = true → e.totalCount ≠ none) := by
  rcases lt_or_ge req.spec.pagination.limit 0 with hneg | hlimit
  · rw [total_of_negative hneg h]
    cases req.needsTotal <;> simp
  · obtain ⟨size, hsize⟩ := Int.eq_ofNat_of_zero_le hlimit
    obtain ⟨b, total, hrows, hmore, hasked, henvelope, hcounted, hknown⟩ :=
      batch_of_execute hcolumns hsound h hsize
    obtain ⟨-, -, htotal⟩ := envelope_eq_ok henvelope
    constructor
    · intro n hn
      rw [htotal] at hn
      obtain ⟨m, hm, rfl⟩ := Option.map_eq_some_iff.1 hn
      rw [eq_of_total hasked hcounted hknown hrows hmore hm]
      rfl
    · intro hneeded
      rw [htotal, total_of_needsTotal hasked hcounted hknown hneeded]
      simp

/-- An envelope of the request tells the total. -/
def Tells (x : Executor) (t : Table) (req : ExecutionRequest) (total : Int) : Prop :=
  ∃ now e, (x.execute t.run req now).result = .ok e ∧ e.totalCount = some total

/-- Two requests divide among them what a third one matches, by the absence of a cell. -/
structure Splits (x : Executor) (t : Table) (field : String)
    (live deleted all : ExecutionRequest) : Prop where
  /-- The conditions of all three can be decided, or those of none. -/
  selects : (x.Selects t live ↔ x.Selects t all) ∧ (x.Selects t deleted ↔ x.Selects t all)
  live_rows : x.matching t live = (x.matching t all).filter fun row => (row.cell field).isNull
  deleted_rows : x.matching t deleted
    = (x.matching t all).filter fun row => !(row.cell field).isNull
  disjoint : ∀ row ∈ x.matching t live, row ∉ x.matching t deleted
  union : (x.matching t live ++ x.matching t deleted).Perm (x.matching t all)
  totals : ∀ m n k, x.Tells t live m → x.Tells t deleted n → x.Tells t all k → m + n = k
  /-- A total that is asked for is told. -/
  asked : ∀ req ∈ [live, deleted, all], req.needsTotal = true → ∀ now e,
    (x.execute t.run req now).result = .ok e → e.totalCount ≠ none

section Field

variable {field : String} (hfield : x.metadata.model.softDeleteField = some field)
  (hcolumn : x.metadata.model.hasColumn field = true)

include hfield hcolumn

theorem visibility_eq (spec : Specification) :
    x.visibility spec = .ok (if spec.includeDeleted then [] else [.isNull field]) := by
  unfold visibility Metadata.column?
  simp only [hfield, hcolumn, if_true]
  cases spec.includeDeleted <;> rfl

variable (hscope : req.scope = [])

include hscope

/-- With all records, the conditions are those of the filters and of the search. -/
theorem predicates_all : x.predicates (req.including true) = x.criteria req.spec := by
  rw [predicates_of_visibility (visibility_eq hfield hcolumn _)]
  change (x.criteria req.spec).map (· ++ [] ++ req.scope) = x.criteria req.spec
  rw [hscope]
  cases x.criteria req.spec <;> simp [Except.map]

theorem predicates_live : x.predicates (req.including false)
    = (x.predicates (req.including true)).map (· ++ [.isNull field]) := by
  rw [predicates_all hfield hcolumn hscope,
    predicates_of_visibility (visibility_eq hfield hcolumn _)]
  change (x.criteria req.spec).map (· ++ [.isNull field] ++ req.scope) = _
  simp only [hscope, List.append_nil]

theorem predicates_deleted (path : Option String) : x.predicates
      { req.including true with scope := [.isNotNull field], resourcePath := path }
    = (x.predicates (req.including true)).map (· ++ [.isNotNull field]) := by
  rw [predicates_all hfield hcolumn hscope,
    predicates_of_visibility (visibility_eq hfield hcolumn _)]
  change (x.criteria req.spec).map (· ++ [] ++ [.isNotNull field]) = _
  cases x.criteria req.spec <;> simp [Except.map]

/-- The live and the deleted records divide what is matched with both included. -/
theorem splits_of_scope (hcolumns : t.columns = x.metadata.model.columns) (hsound : t.Sound)
    (path : Option String) :
    x.Splits t field (req.including false)
      { req.including true with scope := [.isNotNull field], resourcePath := path }
      (req.including true) := by
  have hlive := predicates_live hfield hcolumn hscope
  have hdeleted := predicates_deleted hfield hcolumn hscope path
  have hlive_rows : x.matching t (req.including false)
      = (x.matching t (req.including true)).filter fun row => (row.cell field).isNull := by
    rw [matching_narrowed hlive]
    exact List.filter_congr fun row _ => Table.accepts_isNull field row
  have hdeleted_rows : x.matching t
        { req.including true with scope := [.isNotNull field], resourcePath := path }
      = (x.matching t (req.including true)).filter fun row => !(row.cell field).isNull := by
    rw [matching_narrowed hdeleted]
    exact List.filter_congr fun row _ => Table.accepts_isNotNull field row
  have hunion := List.filter_append_perm (fun row : Row => (row.cell field).isNull)
    (x.matching t (req.including true))
  constructor
  · exact ⟨selects_narrowed (Table.sturdy_isNull field) hlive,
      selects_narrowed ⟨rfl, rfl⟩ hdeleted⟩
  · exact hlive_rows
  · exact hdeleted_rows
  · intro row hrow hrow'
    rw [hlive_rows, List.mem_filter] at hrow
    rw [hdeleted_rows, List.mem_filter, hrow.2] at hrow'
    cases hrow'.2
  · rw [hlive_rows, hdeleted_rows]
    exact hunion
  · rintro m n k ⟨_, _, hlive', hm⟩ ⟨_, _, hdeleted', hn⟩ ⟨_, _, hall', hk⟩
    have hlength := hunion.length_eq
    rw [List.length_append, ← hlive_rows, ← hdeleted_rows] at hlength
    rw [(total_of_execute hcolumns hsound hlive').1 m hm,
      (total_of_execute hcolumns hsound hdeleted').1 n hn,
      (total_of_execute hcolumns hsound hall').1 k hk]
    exact_mod_cast hlength
  · intro _ _ hneeded _ _ h
    exact (total_of_execute hcolumns hsound h).2 hneeded

end Field

end Executor

/-! ## Requests -/

/-- The request for deleted records alone, of those that the parameters ask for. -/
def ListingRequest.ofDeleted (params : Params) (field : String) (path : Option String) :
    ListingRequest :=
  { params, scope := [.isNotNull field], deletedOnly := true, resourcePath := path }

theorem mem_sortedNames {names : List String} {name : String} :
    name ∈ sortedNames names ↔ name ∈ names := by
  have hfold (acc : List String) :
      name ∈ names.foldl (fun acc n => if acc.contains n then acc else acc ++ [n]) acc ↔
        name ∈ acc ∨ name ∈ names := by
    induction names generalizing acc with
    | nil => simp
    | cons n names ih =>
      rw [List.foldl_cons, ih, List.mem_cons]
      by_cases hn : n ∈ acc
      · rw [if_pos (by simpa using hn)]
        constructor
        · exact fun h => h.imp_right .inr
        · rintro (h | rfl | h)
          · exact .inl h
          · exact .inl hn
          · exact .inr h
      · rw [if_neg (by simpa using hn), List.mem_append, List.mem_singleton, or_assoc]
  rw [sortedNames, List.mem_mergeSort, hfold]
  simp

/-- A model that can be served has the columns that its declaration names. -/
theorem Metadata.hasColumn_of_declared {m : Model} {greatest : Int} {size : Option Int}
    {md : Metadata} (h : ofModel? m greatest size = .ok md) {name : String}
    (hname : name ∈ md.model.declared) : md.model.hasColumn name = true := by
  unfold ofModel? at h
  split at h
  · rename_i hempty
    cases h
    by_contra hno
    have hunknown : name ∈ m.unknownColumns :=
      mem_sortedNames.2 (List.mem_filter.2 ⟨hname, by simpa using hno⟩)
    rw [List.isEmpty_iff.1 hempty] at hunknown
    cases hunknown
  · cases h

namespace Listing

variable {l : Listing}

/-- The deleted records among those of a request are asked for in the same format, by the same
specification but for its scope. -/
theorem plan_ofDeleted {params : Params} {path : Option String} {format : Format}
    {live : ExecutionRequest}
    (h : l.plan { params, resourcePath := path } = .ok (format, live)) (field : String)
    (path' : Option String) :
    l.plan (.ofDeleted params field path') = .ok (format, { live.including true with
      scope := [.isNotNull field], resourcePath := path' }) := by
  obtain ⟨draft, spec, hdraft, hformat, hspec, rfl⟩ := plan_eq_ok.1 h
  exact plan_eq_ok.2 ⟨draft, spec, hdraft, hformat, hspec, rfl⟩

/-- A request that says nothing of deleted records has a plan without them. -/
theorem plan_silent {params : Params} (hnone : params.first Params.visibilityKeys = .null)
    {path : Option String} {format : Format} {live : ExecutionRequest}
    (h : l.plan { params, resourcePath := path } = .ok (format, live)) :
    live.scope = [] ∧ live.including false = live := by
  obtain ⟨draft, spec, hdraft, -, hspec, rfl⟩ := plan_eq_ok.1 h
  obtain ⟨c, hc, rfl, -⟩ := specify_eq_ok.1 hspec
  obtain ⟨filters, sorts, pagination, -, -, -, -, haccepted⟩ := Validator.check_eq_ok hc
  have hdeleted : c.accepted.includeDeleted = false := by
    rw [haccepted, includeDeleted_shaped, DraftQuery.includeDeleted_of_read hdraft, hnone]
    exact congrArg Checked.accepted (Validator.checkIncludeDeleted_missing rfl)
  exact ⟨rfl, ExecutionRequest.including_self hdeleted⟩

/-- A request that says nothing of deleted records matches the live ones. With the deleted records
included it matches these as well: exactly those that the listing of deleted records matches, which
answers the same whatever is said of them. -/
theorem live_or_deleted {m : Model} {greatest : Int} {size : Option Int} {md : Metadata}
    (hmd : Metadata.ofModel? m greatest size = .ok md) (hl : l.IsFor md) {field : String}
    (hfield : md.model.softDeleteField = some field) {params : Params}
    (hnone : params.first Params.visibilityKeys = .null) (path path' : Option String)
    {format : Format} {live : ExecutionRequest}
    (hplan : l.plan { params, resourcePath := path } = .ok (format, live)) :
    ∃ deleted, l.plan (.ofDeleted params field path') = .ok (format, deleted) ∧
      ∀ key ∈ Params.visibilityKeys, ∀ v,
        ((∃ planned, l.plan (.ofDeleted (params.put key v) field path') = .ok planned) →
          ∀ store now, l.run store (.ofDeleted (params.put key v) field path') now
            = l.run store (.ofDeleted params field path') now) ∧
        (Validator.checkIncludeDeleted (Params.last v) = { accepted := true } →
          ∃ all, l.plan { params := params.put key v, resourcePath := path } = .ok (format, all) ∧
            ∀ t : Table, t.columns = md.model.columns → t.Sound →
              l.executor.Splits t field live deleted all) := by
  have hdeleted := plan_ofDeleted hplan field path'
  refine ⟨_, hdeleted, fun key hkey v => ⟨?_, ?_⟩⟩
  · rintro ⟨⟨format', planned⟩, hplanned⟩ store now
    obtain ⟨-, plain, hplain, rfl⟩ :=
      (plan_including (.ofDeleted params field path') hnone hkey v).1 hplanned
    have hsame : plain.including (true || (Validator.checkIncludeDeleted (Params.last v)).accepted)
        = plain := by
      rw [hdeleted] at hplain
      cases hplain
      rfl
    have hplans : l.plan (.ofDeleted (params.put key v) field path')
        = l.plan (.ofDeleted params field path') := by
      rw [hplanned, hplain]
      exact congrArg (fun execution => Except.ok (format', execution)) hsame
    unfold run
    rw [hplans]
  · intro hyes
    obtain ⟨hscope, hlive⟩ := plan_silent hnone hplan
    refine ⟨live.including true, ?_, ?_⟩
    · apply (plan_including { params, resourcePath := path } hnone hkey v).2
      refine ⟨?_, live, hplan, ?_⟩
      · rw [hyes]
        simp
      · rw [hyes]
        rfl
    · intro t hcolumns hsound
      have hcolumn : md.model.hasColumn field = true :=
        Metadata.hasColumn_of_declared hmd (by simp [Model.declared, hfield])
      rw [← hl.executor] at hfield hcolumn hcolumns
      have hsplits := Executor.splits_of_scope hfield hcolumn hscope hcolumns hsound path'
      rw [hlive] at hsplits
      exact hsplits

/-- Two quotes of one film and one of another, of which the second is deleted. -/
def quotesKept : Table where
  columns := Catalog.movieQuotes.columns
  rows := [quoteRow 1 7 .null, quoteRow 2 7 (.text "2026-01-01 00:00:00.000000"),
    quoteRow 3 8 .null]

/-- Parameters for the last one of all quotes, which are to be counted. -/
def lastQuote : Params :=
  [("sort", .text "id:desc"), ("pageSize", .text "1"), ("includeTotal", .text "true")]

/-- What is executed for the last live quote. -/
def executionOfLast : ExecutionRequest where
  spec := {
    sort := [{ field := "id", direction := .desc }]
    pagination := .offset {
      page := 1, pageSize := 1, page_pos := Nat.zero_lt_one, size_pos := Nat.zero_lt_one } }
  needsTotal := true

/-- Two quotes are live and one is deleted, which makes three. That deleted quotes are not to be
shown does not hide the one from the listing of deleted quotes. -/
theorem lastQuote_divided :
    ∃ deleted all,
      quoteListing.plan (.ofDeleted lastQuote "deleted_at" none) = .ok (.standard, deleted) ∧
      quoteListing.plan { params := lastQuote.put "includeDeleted" (.text "Yes") }
        = .ok (.standard, all) ∧
      quoteListing.executor.Splits quotesKept "deleted_at" executionOfLast deleted all ∧
      (quoteListing.executor.matching quotesKept executionOfLast).length = 2 ∧
      (quoteListing.executor.matching quotesKept all).length = 3 ∧
      quoteListing.run quotesKept.run
          (.ofDeleted (lastQuote.put "include_deleted" (.text "off")) "deleted_at" none)
          { date := default }
        = quoteListing.run quotesKept.run (.ofDeleted lastQuote "deleted_at" none)
          { date := default } := by
  have hmd : Metadata.ofModel? Catalog.movieQuotes 100 = .ok ⟨Catalog.movieQuotes, 20, 100⟩ := by
    with_unfolding_all rfl
  have hl : quoteListing.IsFor ⟨Catalog.movieQuotes, 20, 100⟩ := ⟨rfl, rfl⟩
  have hplan : quoteListing.plan { params := lastQuote } = .ok (.standard, executionOfLast) := by
    with_unfolding_all rfl
  have hsound : quotesKept.Sound := by decide +kernel
  obtain ⟨deleted, hdeleted, hvalues⟩ := live_or_deleted hmd hl rfl rfl none none hplan
  obtain ⟨-, hyes⟩ := hvalues "includeDeleted" (by decide) (.text "Yes")
  obtain ⟨all, hall, hsplits⟩ := hyes (by with_unfolding_all rfl)
  obtain ⟨hoff, -⟩ := hvalues "include_deleted" (by decide) (.text "off")
  have hplans : ∃ planned, quoteListing.plan (.ofDeleted (lastQuote.put "include_deleted"
      (.text "off")) "deleted_at" none) = .ok planned := by
    refine ⟨_, (plan_including (.ofDeleted lastQuote "deleted_at" none) rfl (by decide)
      (.text "off")).2 ⟨?_, deleted, hdeleted, rfl⟩⟩
    decide +kernel
  have hincluded : quoteListing.plan { params := lastQuote.put "includeDeleted" (.text "Yes") }
      = .ok (.standard, executionOfLast.including true) := by
    with_unfolding_all rfl
  obtain rfl : executionOfLast.including true = all := by
    rw [hall] at hincluded
    cases hincluded
    rfl
  exact ⟨deleted, _, hdeleted, hall, hsplits quotesKept rfl hsound, rfl, rfl, hoff hplans _ _⟩

end Listing
end RecordQuery
