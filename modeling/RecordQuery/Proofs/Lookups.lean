import RecordQuery.Proofs.EffectiveOrder
import RecordQuery.Proofs.StoreCalls

/-!
# Names that are looked up

The declaration of a model names columns for every use that requests can make of them. They are
checked once, when the metadata are made, and looked up whenever a specification is executed. The
fields of the default order are not among the names that are checked.

* `Metadata.ofModel?_refuses_iff`: which declarations are refused.
* `Executor.pageQuery_unknownName_iff`: of valid conditions, only the order can name an unknown
  column.
* `Metadata.queryable_iff`: every valid specification finds the columns that it names just if the
  default order does. A specification fails to find them if it leaves the order to the default one.
-/

namespace RecordQuery

open RecordQuery.Store RecordQuery.Calendar

/-! ## Declarations -/

namespace Metadata

variable {m : Model} {greatest : Int} {size : Option Int} {md : Metadata}

theorem model_of_ofModel? (h : ofModel? m greatest size = .ok md) : md.model = m := by
  unfold ofModel? at h
  split at h
  · cases h
    rfl
  · cases h

/-- A declaration is refused just if it names an unknown column. -/
theorem ofModel?_refuses_iff :
    (∃ e, ofModel? m greatest size = .error e) ↔ ∃ name ∈ m.declared, m.hasColumn name = false := by
  constructor
  · rintro ⟨e, he⟩
    by_contra hall
    have hnone : m.unknownColumns = [] := by
      rw [List.eq_nil_iff_forall_not_mem]
      intro name hname
      obtain ⟨hdeclared, hunknown⟩ := List.mem_filter.1 (mem_sortedNames.1 hname)
      exact hall ⟨name, hdeclared, by simpa using hunknown⟩
    simp [ofModel?, hnone] at he
  · rintro ⟨name, hdeclared, hunknown⟩
    cases h : ofModel? m greatest size with
    | error e => exact ⟨e, rfl⟩
    | ok md =>
      have hmodel := model_of_ofModel? h
      have hknown := hasColumn_of_declared h (hmodel ▸ hdeclared)
      rw [hmodel, hunknown] at hknown
      cases hknown

theorem column?_eq_error {name : String} {f : Fault} :
    md.column? name = .error f ↔ f = .unknownName ∧ md.model.hasColumn name = false := by
  unfold column?
  split
  · rename_i hknown
    simp [hknown]
  · rename_i hunknown
    simp [hunknown, eq_comm]

theorem field_of_mem_tieBreak {sort : List SortCriterion} {s : SortCriterion}
    (hs : s ∈ md.tieBreak sort) : s.field = md.model.uniqueKey := by
  unfold tieBreak at hs
  split at hs
  · rw [List.mem_singleton.1 hs]
  · cases hs

/-- An order in force of which the criteria asked for are known can have an unknown one only from
the default order. -/
theorem effectiveSort_unknown_iff {requested : List SortCriterion}
    (hrequested : ∀ s ∈ requested, md.model.hasColumn s.field = true)
    (hkey : md.model.hasColumn md.model.uniqueKey = true) :
    (∃ s ∈ md.effectiveSort requested, md.model.hasColumn s.field = false) ↔
      requested = [] ∧ ∃ s ∈ md.model.defaultSort, md.model.hasColumn s.field = false := by
  rw [effectiveSort_eq]
  constructor
  · rintro ⟨s, hs, hunknown⟩
    rcases List.mem_append.1 hs with hasked | htie
    · cases requested with
      | nil => exact ⟨rfl, s, hasked, hunknown⟩
      | cons t rest =>
        rw [hrequested s hasked] at hunknown
        cases hunknown
    · rw [field_of_mem_tieBreak htie, hkey] at hunknown
      cases hunknown
  · rintro ⟨rfl, s, hs, hunknown⟩
    exact ⟨s, List.mem_append_left _ hs, hunknown⟩

end Metadata

/-! ## Lookups of an execution -/

theorem Store.Predicate.beyond_eq_error {column : String} {direction : Direction} {v : Value}
    {f : Fault} (h : beyond column direction v = .error f) : f = .unordered := by
  cases direction <;> cases v <;> cases h <;> rfl

/-- A condition of coming after a position does not look up names. -/
theorem Store.Predicate.afterBranches_ne_unknownName (sort : List SortCriterion)
    (position : List Value) (agreed : List Predicate) :
    afterBranches agreed sort position ≠ .error .unknownName := by
  induction sort generalizing position agreed with
  | nil => nofun
  | cons s sort ih =>
    cases position with
    | nil => nofun
    | cons v position =>
      intro h
      rcases bind_eq_error.1 h with hpast | ⟨past, -, h⟩
      · cases beyond_eq_error hpast
      · rcases bind_eq_error.1 h with hrest | ⟨rest, -, h⟩
        · exact ih position _ hrest
        · cases h

namespace Executor

variable {x : Executor} {req : ExecutionRequest} {sort : List SortCriterion}

theorem columns_eq_error {names : List String} {f : Fault} (h : x.columns names = .error f) :
    f = .unknownName ∧ ∃ name ∈ names, x.metadata.model.hasColumn name = false := by
  obtain ⟨name, hname, hfails⟩ := exists_of_mapM_eq_error h
  obtain ⟨rfl, hunknown⟩ := Metadata.column?_eq_error.1 hfails
  exact ⟨rfl, name, hname, hunknown⟩

theorem orderBy_unknownName_iff : x.orderBy sort = .error .unknownName ↔
    ∃ s ∈ sort, x.metadata.model.hasColumn s.field = false := by
  unfold orderBy
  rw [mapM_eq_error_iff]
  · simp [map_eq_error, Metadata.column?_eq_error]
  · intro s f hf
    exact (Metadata.column?_eq_error.1 (map_eq_error.1 hf)).1

/-- The keyset condition names no columns but those of the order. -/
theorem unknown_of_keyset {p : Pagination} (h : x.keyset sort p = .error .unknownName) :
    ∃ s ∈ sort, x.metadata.model.hasColumn s.field = false := by
  unfold keyset at h
  split at h
  · rcases bind_eq_error.1 h with hcolumns | ⟨_, -, hafter⟩
    · obtain ⟨-, name, hname, hunknown⟩ := columns_eq_error hcolumns
      obtain ⟨s, hs, rfl⟩ := List.mem_map.1 hname
      exact ⟨s, hs, hunknown⟩
    · exact absurd (map_eq_error.1 (map_eq_error.1 hafter))
        (Predicate.afterBranches_ne_unknownName sort _ [])
  · cases h

/-- The columns of a keyset condition are looked up before anything else of it can fail. -/
theorem unknownName_of_keyset {p : Pagination}
    (hunknown : ∃ s ∈ sort, x.metadata.model.hasColumn s.field = false) {f : Fault}
    (h : x.keyset sort p = .error f) : f = .unknownName := by
  unfold keyset at h
  split at h
  · rcases bind_eq_error.1 h with hcolumns | ⟨names, hcolumns, -⟩
    · exact (columns_eq_error hcolumns).1
    · obtain ⟨s, hs, hno⟩ := hunknown
      obtain ⟨column, -, hcolumn⟩ :=
        exists_of_mem_left (mapM_eq_ok.1 hcolumns) (List.mem_map_of_mem hs)
      rw [(Metadata.column?_eq_ok hcolumn).2] at hno
      cases hno
  · cases h

/-- If the conditions can be written, a page query fails for a name just if its order has an unknown
one. -/
theorem pageQuery_unknownName_iff {ps : List Predicate} (hps : x.predicates req = .ok ps) :
    x.pageQuery req sort = .error .unknownName ↔
      ∃ s ∈ sort, x.metadata.model.hasColumn s.field = false := by
  unfold pageQuery
  simp only [hps]
  constructor
  · intro h
    rcases bind_eq_error.1 h with h | ⟨_, -, h⟩
    · cases h
    rcases bind_eq_error.1 h with hkeyset | ⟨_, -, h⟩
    · exact unknown_of_keyset hkeyset
    rcases bind_eq_error.1 h with horder | ⟨_, -, h⟩
    · exact orderBy_unknownName_iff.1 horder
    · cases h
  · intro hunknown
    refine bind_eq_error.2 (.inr ⟨ps, rfl, ?_⟩)
    cases hkeyset : x.keyset sort req.spec.pagination with
    | error f =>
      rw [unknownName_of_keyset hunknown hkeyset]
      rfl
    | ok after =>
      exact bind_eq_error.2 (.inr ⟨after, rfl,
        bind_eq_error.2 (.inl (orderBy_unknownName_iff.2 hunknown))⟩)

theorem complete_ne_fault (store : RecordQuery.Store) (now : DateTime) (q : StoreQuery) (b : Batch)
    (f : Fault) : (x.complete store req sort now q b).result ≠ .error (.fault f) := by
  have hfinish (b : Batch) : x.finish req sort now b ≠ .error (.fault f) := by
    obtain ⟨e, he⟩ := x.finish_succeeds req sort now b
    rw [he]
    nofun
  unfold complete
  split
  · cases hcount : store (countQuery q) with
    | error failure =>
      simp only [hcount]
      nofun
    | ok reply =>
      simp only [hcount]
      exact hfinish _
  · exact hfinish _

/-- An execution ends with the faults of its page query, and with no others. -/
theorem execute_fault_iff (store : RecordQuery.Store) (now : DateTime) (f : Fault) :
    (x.execute store req now).result = .error (.fault f) ↔
      x.pageQuery req (x.sortOf req) = .error f := by
  constructor
  · intro h
    cases hq : x.pageQuery req (x.sortOf req) with
    | error f' =>
      rw [execute_of_unwritten hq, Except.error.injEq, ExecutionError.fault.injEq] at h
      rw [h]
    | ok q =>
      cases hreply : store q with
      | error failure =>
        unfold execute at h
        rw [sortOf] at hq
        simp only [hq, hreply] at h
        cases h
      | ok reply =>
        rw [execute_of_reply hq hreply] at h
        exact absurd h (complete_ne_fault store now q _ f)
  · intro h
    rw [execute_of_unwritten h]

end Executor

/-! ## Valid requests -/

/-- A validator for the metadata has given the specification that is executed, but for the records
that are visible. -/
def ExecutionRequest.IsValid (req : ExecutionRequest) (md : Metadata) : Prop :=
  ∃ (v : Validator) (draft : DraftQuery) (outcome : Outcome) (spec : Specification)
    (deleted : Bool), v.metadata = md ∧ v.validate draft = .ok outcome ∧
      outcome.spec = some spec ∧ req.spec = { spec with includeDeleted := deleted }

/-- No valid request fails for a name that is looked up. -/
def Metadata.Queryable (md : Metadata) : Prop :=
  ∀ req : ExecutionRequest, req.IsValid md → ∀ x : Executor, x.metadata = md →
    ∀ (store : RecordQuery.Store) (now : DateTime),
      (x.execute store req now).result ≠ .error (.fault .unknownName)

namespace Metadata

variable {m : Model} {greatest : Int} {size : Option Int} {md : Metadata}

/-- A valid request fails for a name just if it asks for no order and the default one has an unknown
column. -/
theorem execute_unknownName_iff (hmd : ofModel? m greatest size = .ok md) {req : ExecutionRequest}
    (hreq : req.IsValid md) {x : Executor} (hx : x.metadata = md) (store : RecordQuery.Store)
    (now : DateTime) :
    (x.execute store req now).result = .error (.fault .unknownName) ↔
      req.spec.sort = [] ∧ ∃ s ∈ m.defaultSort, m.hasColumn s.field = false := by
  obtain ⟨v, draft, outcome, spec, deleted, hv, h, hs, hspec⟩ := hreq
  obtain ⟨c, hc, rfl, -⟩ := Validator.validate_eq_ok h hs
  obtain ⟨ps, hps⟩ := Executor.predicates_ok_of_check hmd hx hv hc hspec
  have hsortable := (check_whitelisted hc).sort
  obtain rfl := model_of_ofModel? hmd
  rw [Executor.execute_fault_iff, Executor.pageQuery_unknownName_iff hps, Executor.sortOf, hx,
    hspec]
  refine effectiveSort_unknown_iff ?_ (hasColumn_of_declared hmd (by simp [Model.declared]))
  intro s hs
  have hfield := (hsortable s hs).1
  rw [hv] at hfield
  exact hasColumn_of_declared hmd (by simp [Model.declared, hfield])

/-- There is a valid request that asks for nothing. -/
theorem isValid_empty (md : Metadata) : ({} : ExecutionRequest).IsValid md := by
  let v : Validator := { metadata := md, maxPageSize := 20, defaultPageSize := 20 }
  exact ⟨v, { grammar := .simple }, { spec := some {} }, {}, false, rfl, rfl, rfl, rfl⟩

/-- A declaration that names an unknown column for a use of requests is refused; the default order
is not checked. Valid requests find all that they look up just if the default order has no unknown
column, and if it has one, those that ask for no order of their own do not. -/
theorem queryable_iff (m : Model) (greatest : Int) (size : Option Int) :
    ((∃ e, ofModel? m greatest size = .error e) ↔
        ∃ name ∈ m.declared, m.hasColumn name = false) ∧
      ∀ md, ofModel? m greatest size = .ok md →
        (md.Queryable ↔ ∀ s ∈ m.defaultSort, m.hasColumn s.field = true) ∧
        ∀ req : ExecutionRequest, req.IsValid md → ∀ x : Executor, x.metadata = md →
          ∀ (store : RecordQuery.Store) (now : DateTime),
            (x.execute store req now).result = .error (.fault .unknownName) ↔
              req.spec.sort = [] ∧ ∃ s ∈ m.defaultSort, m.hasColumn s.field = false := by
  refine ⟨ofModel?_refuses_iff, fun md hmd => ⟨⟨?_, ?_⟩, ?_⟩⟩
  · intro hqueryable s hs
    by_contra hunknown
    refine hqueryable {} md.isValid_empty { metadata := md } rfl (fun _ => .ok {})
      { date := default } ?_
    rw [execute_unknownName_iff hmd md.isValid_empty rfl]
    exact ⟨rfl, s, hs, by simpa using hunknown⟩
  · intro hknown req hreq x hx store now hfails
    obtain ⟨-, s, hs, hunknown⟩ := (execute_unknownName_iff hmd hreq hx store now).1 hfails
    rw [hknown s hs] at hunknown
    cases hunknown
  · exact fun req hreq x hx store now => execute_unknownName_iff hmd hreq hx store now

/-- Quotes that are by default in the order of a field that they do not have. -/
def ghostQuotes : Model := { Catalog.movieQuotes with defaultSort := [{ field := "ghost" }] }

/-- The quotes can be served, but the request that asks for nothing fails. -/
theorem ghostQuotes_unqueryable :
    ∃ md, ofModel? ghostQuotes 100 = .ok md ∧ ¬ md.Queryable ∧
      ∀ (store : RecordQuery.Store) (now : DateTime),
        (({ metadata := md } : Executor).execute store {} now).result
          = .error (.fault .unknownName) := by
  have hmd : ofModel? ghostQuotes 100 = .ok ⟨ghostQuotes, 20, 100⟩ := by
    with_unfolding_all rfl
  have hunknown : ∃ s ∈ ghostQuotes.defaultSort, ghostQuotes.hasColumn s.field = false := by
    decide +kernel
  obtain ⟨hqueryable, hfails⟩ := (queryable_iff ghostQuotes 100 none).2 _ hmd
  refine ⟨_, hmd, ?_, fun store now => ?_⟩
  · rw [hqueryable]
    obtain ⟨s, hs, hno⟩ := hunknown
    intro hknown
    rw [hknown s hs] at hno
    cases hno
  · exact (hfails {} (isValid_empty _) _ rfl store now).2 ⟨rfl, hunknown⟩

end Metadata
end RecordQuery
