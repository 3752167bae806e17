import RecordQuery.Proofs.Acceptance
import RecordQuery.Proofs.CachedAnswers
import RecordQuery.Proofs.Canonical

/-!
# Calls of the store

An execution asks its store for the rows of a slice. It asks a second time only where nothing else
can tell the total: for a count, of a window without rows that starts behind the first row. What the
store replies is not trusted, and may be a failure each time.

* `Executor.execute_asks`: an execution whose page query can be written asks for what it needs.
* `Listing.pageQuery_ok_iff`: when the page query of a valid specification can be written.
* `Listing.run_eq_of_queries`: an answer depends on no replies but those to its queries.
* `Listing.calls_needed_iff`: when a valid specification leads to the calls that it needs.
-/

namespace RecordQuery

open RecordQuery.Store RecordQuery.Calendar

/-- The store gives a total in a reply if and only if it is asked for one. Apart from that, it may
reply anything to any query, or fail. As no execution sends a query twice, this includes stores that
reply differently each time. -/
def Store.Counts (store : RecordQuery.Store) : Prop :=
  ∀ q reply, store q = .ok reply → reply.total.isSome = q.withTotal

/-! ## Calls -/

/-- Only a count can tell the total of a batch if it is a window behind the first row, without rows
or a total. -/
theorem Batch.needsCount_ofReply {pagination : Pagination} (hlimit : 1 ≤ pagination.limit)
    (reply : StoreReply) : (ofReply pagination.limit reply).needsCount pagination = true ↔
      (∃ w, pagination = .window w ∧ 0 < w.startRow) ∧ reply.total = none ∧ reply.rows = [] := by
  cases pagination with
  | window w =>
    have hrows : takeRows (Pagination.window w).limit reply.rows = [] ↔ reply.rows = [] := by
      rw [takeRows, if_pos (by omega), List.take_eq_nil_iff]
      constructor
      · rintro (hzero | hnil)
        · omega
        · exact hnil
      · exact .inr
    have hmore : reply.rows = [] → ¬ (Pagination.window w).limit < reply.rows.length := by
      rintro hnil
      rw [hnil, List.length_nil]
      omega
    simp only [needsCount, ofReply, Bool.and_eq_true, Option.isNone_iff_eq_none,
      Bool.not_eq_true', decide_eq_false_iff_not, List.isEmpty_iff, hrows, bne_iff_ne,
      Pagination.window.injEq, exists_eq_left', Nat.pos_iff_ne_zero]
    tauto
  | _ => simp [needsCount]

namespace Executor

variable {x : Executor} {store : RecordQuery.Store} {req : ExecutionRequest} {q : StoreQuery}
  {now : DateTime}

/-- The query has found no rows in a window that starts behind the first row, and no total was asked
for. -/
def Overshoots (store : RecordQuery.Store) (req : ExecutionRequest) (q : StoreQuery) : Prop :=
  (∃ w, req.spec.pagination = .window w ∧ 0 < w.startRow) ∧ req.needsTotal = false ∧
    ∃ reply, store q = .ok reply ∧ reply.rows = []

/-- The execution has asked the store for what it needs, with `q` as its page query, and for nothing
else. -/
structure Asks (x : Executor) (store : RecordQuery.Store) (req : ExecutionRequest) (q : StoreQuery)
    (execution : Execution) : Prop where
  offset : q.offset = req.spec.pagination.firstRow
  limit : q.limit = req.spec.pagination.limit + 1
  withTotal : q.withTotal = req.needsTotal
  /-- Behind the rows, there is a second query, which only counts. -/
  counted : Overshoots store req q → execution.queries
    = [q, { predicates := q.predicates, limit := 0, withTotal := true, timeout := q.timeout }]
  once : ¬ Overshoots store req q → execution.queries = [q]
  /-- Whichever query fails, the execution fails with it. -/
  failed : ∀ asked ∈ execution.queries, ∀ failure, store asked = .error failure →
    execution.result = .error (.store x.metadata.model.name asked.timeout failure)
  answered : (∀ asked ∈ execution.queries, ∃ reply, store asked = .ok reply) →
    ∃ e, execution.result = .ok e

theorem Asks.nodup {execution : Execution} (h : x.Asks store req q execution)
    (hlimit : 0 ≤ req.spec.pagination.limit) : execution.queries.Nodup := by
  by_cases hbeyond : Overshoots store req q
  · have hpage := h.limit
    rw [h.counted hbeyond, List.nodup_cons]
    refine ⟨fun hmem => ?_, List.nodup_singleton _⟩
    -- only the page query asks for rows
    rw [List.mem_singleton.1 hmem] at hpage
    simp only at hpage
    omega
  · rw [h.once hbeyond]
    exact List.nodup_singleton q

/-- How an execution ends that has a page query: this query fails, or it shows rows or the first of
them, or it overshoots. In the last case, the count may fail. -/
inductive Ends (x : Executor) (store : RecordQuery.Store) (req : ExecutionRequest) (now : DateTime)
    (q : StoreQuery) : Execution → Prop
  | failed {failure : StoreFailure} (page : store q = .error failure) :
      Ends x store req now q { queries := [q], result := x.failed q failure }
  | finished {reply : StoreReply} (page : store q = .ok reply)
      (shown : ¬ Overshoots store req q) (b : Batch) :
      Ends x store req now q { queries := [q], result := x.finish req (x.sortOf req) now b }
  | uncounted {failure : StoreFailure} (beyond : Overshoots store req q)
      (count : store (countQuery q) = .error failure) :
      Ends x store req now q
        { queries := [q, countQuery q], result := x.failed (countQuery q) failure }
  | counted {reply : StoreReply} (beyond : Overshoots store req q)
      (count : store (countQuery q) = .ok reply) (b : Batch) :
      Ends x store req now q
        { queries := [q, countQuery q], result := x.finish req (x.sortOf req) now b }

/-- Nothing is asked if the page query cannot be written. -/
theorem execute_of_unwritten {f : Fault} (h : x.pageQuery req (x.sortOf req) = .error f) :
    x.execute store req now = { result := .error (.fault f) } := by
  unfold execute
  rw [sortOf] at h
  simp only [h]

/-- A batch overshoots if it has no rows and only a count can tell its total. -/
theorem overshoots_iff (hcounts : store.Counts) (hlimit : 1 ≤ req.spec.pagination.limit)
    (htotal : q.withTotal = req.needsTotal) {reply : StoreReply} (hreply : store q = .ok reply) :
    Overshoots store req q ↔ (Batch.ofReply req.spec.pagination.limit reply).needsCount
      req.spec.pagination = true := by
  have hnone : reply.total = none ↔ req.needsTotal = false := by
    rw [← htotal, ← hcounts q reply hreply, Option.isSome_eq_false_iff, Option.isNone_iff_eq_none]
  rw [Batch.needsCount_ofReply hlimit, hnone]
  simp [Overshoots, hreply]

theorem execute_ends (hcounts : store.Counts) (hlimit : 1 ≤ req.spec.pagination.limit)
    (hq : x.pageQuery req (x.sortOf req) = .ok q) (now : DateTime) :
    x.Ends store req now q (x.execute store req now) := by
  obtain ⟨ps, after, -, -, -, hfields⟩ := pageQuery_eq_ok hq
  have htotal : q.withTotal = req.needsTotal := by rw [hfields]
  cases hreply : store q with
  | error failure =>
    have hexecution :
        x.execute store req now = { queries := [q], result := x.failed q failure } := by
      unfold execute
      rw [sortOf] at hq
      simp only [hq, hreply]
    exact hexecution ▸ .failed hreply
  | ok reply =>
    have hbeyond := overshoots_iff hcounts hlimit htotal hreply
    rw [execute_of_reply hq hreply]
    unfold complete
    split
    · rename_i hneeds
      cases hcount : store (countQuery q) with
      | error failure =>
        simp only [hcount]
        exact .uncounted (hbeyond.2 hneeds) hcount
      | ok counted =>
        simp only [hcount]
        exact .counted (hbeyond.2 hneeds) hcount _
    · rename_i hneeds
      exact .finished hreply (fun h => hneeds (hbeyond.1 h)) _

/-- Every batch is finished with an envelope. -/
theorem finish_succeeds (x : Executor) (req : ExecutionRequest) (sort : List SortCriterion)
    (now : DateTime) (b : Batch) : ∃ e, x.finish req sort now b = .ok e := by
  obtain ⟨e, he, -⟩ := x.envelope_ok req sort now b
  exact ⟨e, finish_ok he⟩

theorem Ends.failed_of_mem {execution : Execution} (h : x.Ends store req now q execution)
    {asked : StoreQuery} (hasked : asked ∈ execution.queries) {failure : StoreFailure}
    (hfailure : store asked = .error failure) :
    execution.result = .error (.store x.metadata.model.name asked.timeout failure) := by
  have hanswered {q : StoreQuery} {reply : StoreReply} (hreply : store q = .ok reply) :
      asked ≠ q := by
    rintro rfl
    rw [hreply] at hfailure
    cases hfailure
  cases h with
  | failed page =>
    obtain rfl := List.mem_singleton.1 hasked
    obtain rfl := Except.error.inj (page.symm.trans hfailure)
    rfl
  | finished page _ b => exact absurd (List.mem_singleton.1 hasked) (hanswered page)
  | uncounted beyond count =>
    obtain ⟨-, -, reply, page, -⟩ := beyond
    rcases List.mem_pair.1 hasked with hpage | rfl
    · exact absurd hpage (hanswered page)
    · obtain rfl := Except.error.inj (count.symm.trans hfailure)
      rfl
  | counted beyond count b =>
    obtain ⟨-, -, reply, page, -⟩ := beyond
    rcases List.mem_pair.1 hasked with hpage | hcount
    · exact absurd hpage (hanswered page)
    · exact absurd hcount (hanswered count)

theorem Ends.exists_ok {execution : Execution} (h : x.Ends store req now q execution)
    (hall : ∀ asked ∈ execution.queries, ∃ reply, store asked = .ok reply) :
    ∃ e, execution.result = .ok e := by
  have hunfailed {q : StoreQuery} {failure : StoreFailure} (hfailure : store q = .error failure) :
      q ∉ execution.queries := by
    intro hmem
    obtain ⟨reply, hreply⟩ := hall q hmem
    rw [hfailure] at hreply
    cases hreply
  cases h with
  | failed page => exact absurd List.mem_cons_self (hunfailed page)
  | finished page _ b => exact x.finish_succeeds req _ now b
  | uncounted beyond count => exact absurd (by simp) (hunfailed count)
  | counted beyond count b => exact x.finish_succeeds req _ now b

/-- A page query that can be written is sent, and after it a count if it overshoots. -/
theorem execute_asks (hcounts : store.Counts) (hlimit : 1 ≤ req.spec.pagination.limit)
    (hq : x.pageQuery req (x.sortOf req) = .ok q) (now : DateTime) :
    x.Asks store req q (x.execute store req now) := by
  obtain ⟨ps, after, -, -, -, hfields⟩ := pageQuery_eq_ok hq
  have hends := execute_ends hcounts hlimit hq now
  refine ⟨by rw [hfields], by rw [hfields], by rw [hfields], ?_, ?_, ?_, ?_⟩
  · intro hbeyond
    generalize x.execute store req now = execution at hends
    cases hends with
    | failed page =>
      obtain ⟨-, -, reply, hreply, -⟩ := hbeyond
      rw [page] at hreply
      cases hreply
    | finished _ shown b => exact absurd hbeyond shown
    | uncounted _ _ => rfl
    | counted _ _ b => rfl
  · intro hshown
    generalize x.execute store req now = execution at hends
    cases hends with
    | failed page => rfl
    | finished _ _ b => rfl
    | uncounted beyond _ => exact absurd beyond hshown
    | counted beyond _ b => exact absurd beyond hshown
  · exact fun asked hasked failure hfailure => hends.failed_of_mem hasked hfailure
  · exact hends.exists_ok

/-! ## Stores that reply alike -/

theorem page_mem_queries (x : Executor) (store : RecordQuery.Store) (req : ExecutionRequest)
    (sort : List SortCriterion) (now : DateTime) (q : StoreQuery) (b : Batch) :
    q ∈ (x.complete store req sort now q b).queries := by
  unfold complete
  split
  · cases hcount : store (countQuery q) <;> simp [hcount]
  · simp

theorem complete_eq_of_queries {s s' : RecordQuery.Store} {sort : List SortCriterion} {b : Batch}
    (h : ∀ asked ∈ (x.complete s req sort now q b).queries, s asked = s' asked) :
    x.complete s req sort now q b = x.complete s' req sort now q b := by
  unfold complete at h ⊢
  split
  · rename_i hneeds
    rw [if_pos hneeds] at h
    cases hcount : s (countQuery q) with
    | error failure =>
      simp only [hcount] at h ⊢
      rw [← h (countQuery q) (by simp), hcount]
    | ok reply =>
      simp only [hcount] at h ⊢
      rw [← h (countQuery q) (by simp), hcount]
  · rfl

/-- An execution depends on no replies but those to the queries that it sends. -/
theorem execute_eq_of_queries {s s' : RecordQuery.Store}
    (h : ∀ asked ∈ (x.execute s req now).queries, s asked = s' asked) :
    x.execute s req now = x.execute s' req now := by
  unfold execute at h ⊢
  cases hq : x.pageQuery req (x.metadata.effectiveSort req.spec.sort) with
  | error f => simp only [hq]
  | ok q =>
    simp only [hq] at h ⊢
    cases hreply : s q with
    | error failure =>
      simp only [hreply] at h ⊢
      rw [← h q List.mem_cons_self, hreply]
    | ok reply =>
      simp only [hreply] at h ⊢
      rw [← h q (x.page_mem_queries ..), hreply]
      exact complete_eq_of_queries h

end Executor

/-! ## Operands of conditions -/

theorem Kind.custom_notMem_operators (kind : Kind) : .custom ∉ kind.operators := by
  cases kind <;> decide

namespace Metadata

variable {md : Metadata} {field : String}

/-- What an operand is coerced to is never absent, and a boolean for a boolean field only. -/
theorem coerced_orderable {raw v : Value} (h : md.coerced field raw = .ok v) :
    v ≠ .null ∧ (md.kind field ≠ .boolean → ∀ b, v ≠ .bool b) := by
  unfold coerced at h
  split at h
  · rename_i hcoerce
    cases h
    cases hkind : md.kind field with
    | boolean =>
      rw [hkind] at hcoerce
      obtain ⟨b, -, rfl⟩ := map_eq_ok.1 hcoerce
      exact ⟨nofun, fun hne => absurd rfl hne⟩
    | _ =>
      rw [hkind] at hcoerce
      obtain ⟨a, -, rfl⟩ := map_eq_ok.1 hcoerce
      exact ⟨nofun, fun _ b => nofun⟩
  · exact absurd h refuse_ne_ok
  · cases h

/-- A range has two ends. -/
theorem rangeOperand_pair {raw v : Value} (h : md.rangeOperand field raw = .ok v) :
    ∃ low high, v = .tuple [low, high] := by
  unfold rangeOperand at h
  split at h
  · split at h
    · cases h
    · split at h
      · cases h
        exact ⟨_, _, rfl⟩
      · cases h
  · exact absurd h refuse_ne_ok

/-- Operands of an operator that a field has make a condition. -/
theorem criterion?_ok {c : FilterCriterion} (hoffered : c.operator ∈ (md.kind c.field).operators)
    {raw : Value} (hoperand : md.operand c.field c.operator raw = .ok c.value) (column : String) :
    ∃ p, Predicate.criterion? column c = .ok p := by
  have hinherited : Value.Inherited fun _ => True :=
    ⟨trivial, fun _ => trivial, by simp, by simp, by simp, fun _ => trivial⟩
  obtain ⟨htakes, -⟩ := operand_takes hinherited trivial (fun _ => coerced_orderable) hoperand
  obtain ⟨field, op, value, valueType, caseSensitive⟩ := c
  simp only at hoffered hoperand htakes ⊢
  cases op with
  | equals | notEquals | isNull | isNotNull | regex => exact ⟨_, rfl⟩
  | gt | gte | lt | lte =>
    -- these operators are not those of boolean fields
    have hkind : md.kind field ≠ .boolean := by
      intro hkind
      rw [hkind] at hoffered
      revert hoffered
      decide
    obtain ⟨hnull, hbool⟩ := htakes
    exact ⟨_, Table.ordered_eq (hbool hkind) hnull _⟩
  | isIn | notIn =>
    obtain ⟨values, rfl, -⟩ := htakes
    exact ⟨_, rfl⟩
  | between =>
    obtain ⟨low, high, rfl⟩ := rangeOperand_pair hoperand
    exact ⟨_, rfl⟩
  | contains | startsWith | endsWith =>
    obtain ⟨text, rfl⟩ := htakes
    exact ⟨_, rfl⟩
  | custom => exact absurd hoffered (Kind.custom_notMem_operators _)

end Metadata

/-! ## Positions -/

namespace Store.Table

theorem beyond_ok {v : Value} (hbool : ∀ b, v ≠ .bool b) (column : String)
    (direction : Direction) : ∃ p, Predicate.beyond column direction v = .ok p := by
  by_cases hnull : v = .null
  · subst hnull
    cases direction <;> exact ⟨_, rfl⟩
  · cases direction with
    | asc => exact ⟨_, beyond_asc hbool hnull⟩
    | desc => exact ⟨_, beyond_desc hbool hnull⟩

/-- Something can come after a position that has a value for every key, and no boolean. -/
theorem afterBranches_ok {sort : List SortCriterion} {position : List Value}
    (hlength : position.length = sort.length) (hbool : ∀ b, .bool b ∉ position)
    (agreed : List Predicate) : ∃ ps, Predicate.afterBranches agreed sort position = .ok ps := by
  induction sort generalizing position agreed with
  | nil => exact ⟨[], rfl⟩
  | cons s sort ih =>
    cases position with
    | nil => cases hlength
    | cons v position =>
      obtain ⟨past, hpast⟩ := beyond_ok
        (fun b hb => hbool b (hb ▸ List.mem_cons_self)) s.field s.direction
      obtain ⟨rest, hrest⟩ := ih (Nat.succ.inj hlength)
        (fun b hb => hbool b (List.mem_cons_of_mem v hb)) (agreed ++ [.equal s.field v])
      exact ⟨_, bind_eq_ok.2 ⟨past, hpast, bind_eq_ok.2 ⟨rest, hrest, rfl⟩⟩⟩

theorem after_ok_iff {sort : List SortCriterion} {position : List Value}
    (hlength : position.length = sort.length) :
    (∃ p, Predicate.after sort position = .ok p) ↔ ∀ b, .bool b ∉ position := by
  constructor
  · rintro ⟨p, hp⟩ b hb
    obtain ⟨f, hf⟩ := after_eq_error hlength hb
    rw [hf] at hp
    cases hp
  · intro hbool
    obtain ⟨ps, hps⟩ := afterBranches_ok hlength hbool []
    exact ⟨_, map_eq_ok.2 ⟨ps, hps, rfl⟩⟩

end Store.Table

namespace Pagination

/-- The position that a slice follows. -/
def position? : Pagination → Option (List Value)
  | cursor page => page.position
  | _ => none

/-- A position that was read from a cursor has a value for every key of its order. -/
theorem length_of_located {secret : Option String} {sort : List SortCriterion} {p : Pagination}
    (h : p.Located secret sort) : ∀ position ∈ p.position?, position.length = sort.length := by
  cases p with
  | cursor page =>
    obtain ⟨token, size, position, _⟩ := page
    cases token with
    | none =>
      obtain rfl : position = none := h
      nofun
    | some token =>
      obtain ⟨now, values, rfl, hdecode⟩ := h
      rintro _ ⟨⟩
      obtain ⟨claims, -, -, -, -, pairs, -, hlength, htagged⟩ := Cursor.decode_eq_ok_iff.1 hdecode
      rw [← htagged.length_eq, hlength]
  | _ => nofun

end Pagination

namespace Executor

variable {x : Executor} {req : ExecutionRequest}

/-- The keyset condition can be written if nothing in the position is a boolean. -/
theorem keyset_ok_iff {sort : List SortCriterion} {pagination : Pagination}
    (hsort : ∀ s ∈ sort, x.metadata.model.hasColumn s.field = true)
    (hlength : ∀ position ∈ pagination.position?, position.length = sort.length) :
    (∃ after, x.keyset sort pagination = .ok after) ↔
      ∀ position ∈ pagination.position?, ∀ b, .bool b ∉ position := by
  cases pagination with
  | cursor page =>
    cases hposition : page.position with
    | none =>
      have hnone : (Pagination.cursor page).position? = none := hposition
      refine iff_of_true ⟨none, x.keyset_first sort hposition⟩ ?_
      rw [hnone]
      nofun
    | some position =>
      have hsome : (Pagination.cursor page).position? = some position := hposition
      rw [hsome] at hlength
      rw [keyset_after hposition hsort, hsome]
      simp only [Option.mem_some_iff, forall_eq'] at hlength ⊢
      rw [← Table.after_ok_iff hlength]
      constructor
      · rintro ⟨after, hafter⟩
        obtain ⟨p, hp, -⟩ := map_eq_ok.1 hafter
        exact ⟨p, hp⟩
      · rintro ⟨p, hp⟩
        exact ⟨some p, map_eq_ok.2 ⟨p, hp, rfl⟩⟩
  | _ => exact iff_of_true ⟨none, rfl⟩ nofun

/-- The page query of a specification can be written: its order is over columns of the model, and
there is no boolean in the position that its slice follows. -/
structure Writable (x : Executor) (spec : Specification) : Prop where
  sorts : ∀ s ∈ x.metadata.effectiveSort spec.sort, x.metadata.model.hasColumn s.field = true
  position : ∀ position ∈ spec.pagination.position?, ∀ b, .bool b ∉ position

theorem searchPredicate_ok {s : SearchSpec}
    (h : ∀ name ∈ s.fields, x.metadata.model.hasColumn name = true) :
    ∃ p, x.searchPredicate s = .ok p := by
  obtain ⟨names, hnames⟩ : ∃ names, x.columns s.fields = .ok names :=
    exists_mapM_ok fun name hname => ⟨name, by simp [Metadata.column?, h name hname]⟩
  exact ⟨_, bind_eq_ok.2 ⟨names, hnames, rfl⟩⟩

theorem visibility_ok (h : ∀ field ∈ x.metadata.model.softDeleteField,
    x.metadata.model.hasColumn field = true) (spec : Specification) :
    ∃ ps, x.visibility spec = .ok ps := by
  unfold visibility
  cases hfield : x.metadata.model.softDeleteField with
  | none => exact ⟨_, rfl⟩
  | some field =>
    simp only
    split
    · exact ⟨_, rfl⟩
    · exact ⟨_, map_eq_ok.2 ⟨field, by simp [Metadata.column?, h field hfield], rfl⟩⟩

theorem predicates_ok (hfilters : ∀ c ∈ req.spec.filters, ∃ p, x.filterPredicate c = .ok p)
    (hsearch : ∀ s ∈ req.spec.search, ∀ name ∈ s.fields, x.metadata.model.hasColumn name = true)
    (hdeleted : ∀ field ∈ x.metadata.model.softDeleteField,
      x.metadata.model.hasColumn field = true) : ∃ ps, x.predicates req = .ok ps := by
  obtain ⟨filters, hfilters⟩ := exists_mapM_ok hfilters
  obtain ⟨visibility, hvisibility⟩ := visibility_ok hdeleted req.spec
  unfold predicates
  cases hs : req.spec.search with
  | none =>
    exact ⟨_, bind_eq_ok.2 ⟨filters, hfilters, bind_eq_ok.2 ⟨[], rfl,
      bind_eq_ok.2 ⟨visibility, hvisibility, rfl⟩⟩⟩⟩
  | some s =>
    obtain ⟨p, hp⟩ := searchPredicate_ok (hsearch s hs)
    exact ⟨_, bind_eq_ok.2 ⟨filters, hfilters, bind_eq_ok.2 ⟨[p], map_eq_ok.2 ⟨p, hp, rfl⟩,
      bind_eq_ok.2 ⟨visibility, hvisibility, rfl⟩⟩⟩⟩

/-- If the conditions can be written, the page query can be written just if the order and the keyset
condition can. -/
theorem pageQuery_ok_iff {ps : List Predicate} (hps : x.predicates req = .ok ps)
    (hlength : ∀ position ∈ req.spec.pagination.position?,
      position.length = (x.sortOf req).length) :
    (∃ q, x.pageQuery req (x.sortOf req) = .ok q) ↔ x.Writable req.spec := by
  constructor
  · rintro ⟨q, hq⟩
    obtain ⟨_, after, -, hafter, hsorts, -⟩ := pageQuery_eq_ok hq
    exact ⟨hsorts, (keyset_ok_iff hsorts hlength).1 ⟨after, hafter⟩⟩
  · rintro ⟨hsorts, hposition⟩
    obtain ⟨after, hafter⟩ := (keyset_ok_iff hsorts hlength).2 hposition
    exact ⟨_, bind_eq_ok.2 ⟨ps, hps, bind_eq_ok.2 ⟨after, hafter,
      bind_eq_ok.2 ⟨_, orderBy_ok hsorts, rfl⟩⟩⟩⟩

end Executor

/-! ## Valid specifications -/

section Served

variable {m : Model} {greatest : Int} {size : Option Int} {md : Metadata}
  (hmd : Metadata.ofModel? m greatest size = .ok md)

include hmd

/-- The condition of a filter that has passed its check can be written. -/
theorem Executor.filterPredicate_ok {x : Executor} (hx : x.metadata = md) {f : DraftFilter}
    {c : FilterCriterion} (h : md.checkFilter f = .ok c) : ∃ p, x.filterPredicate c = .ok p := by
  subst hx
  have hwhitelisted := checkFilter_whitelisted h
  have hcolumn : x.metadata.model.hasColumn c.field = true :=
    Metadata.hasColumn_of_declared hmd (by simp [Model.declared, hwhitelisted.field])
  have hfield : x.metadata.column? c.field = .ok c.field := by simp [Metadata.column?, hcolumn]
  rcases hwhitelisted.offered with hoffered | ⟨hcustom, hsome⟩
  · have hop : c.operator ≠ .custom := by
      intro hcustom
      rw [hcustom] at hoffered
      exact Kind.custom_notMem_operators _ hoffered
    have hoperand := Metadata.operand_of_checkFilter h
    rw [← (Metadata.named_of_checkFilter h).1] at hoperand
    obtain ⟨p, hp⟩ := Metadata.criterion?_ok hoffered hoperand c.field
    exact ⟨p, bind_eq_ok.2 ⟨c.field, hfield, by rw [if_neg hop, hp]⟩⟩
  · obtain ⟨condition, hcondition⟩ := Option.isSome_iff_exists.1 hsome
    exact ⟨_, bind_eq_ok.2 ⟨c.field, hfield, by rw [if_pos hcustom, hcondition]; rfl⟩⟩

/-- All conditions of what passes its checks can be written. -/
theorem Executor.predicates_ok_of_check {x : Executor} (hx : x.metadata = md) {v : Validator}
    (hv : v.metadata = md) {draft : DraftQuery} {c : Checked Specification}
    (hc : v.check draft = .ok c) {req : ExecutionRequest} {deleted : Bool}
    (hreq : req.spec = { c.accepted with includeDeleted := deleted }) :
    ∃ ps, x.predicates req = .ok ps := by
  have hwhitelisted := check_whitelisted hc
  obtain ⟨filters, _, _, hfilters, -, -, -, haccepted⟩ := Validator.check_eq_ok hc
  rw [hv] at hwhitelisted
  have hdeclared {name : String} (h : name ∈ md.model.declared) :
      x.metadata.model.hasColumn name = true := by
    rw [hx]
    exact Metadata.hasColumn_of_declared hmd h
  refine predicates_ok ?_ ?_ ?_
  · rw [hreq, haccepted]
    intro c hc
    obtain ⟨f, hf, hcheck⟩ := List.mem_map.1 (ok_mem_of_gather hfilters hc)
    rw [hv] at hcheck
    exact filterPredicate_ok hmd hx hcheck
  · rw [hreq]
    intro s hs name hname
    exact hdeclared (by simp [Model.declared, (hwhitelisted.search s hs).fields name hname])
  · intro field hfield
    rw [hx] at hfield
    exact hdeclared (by simp [Model.declared, Option.mem_def.1 hfield])

namespace Listing

variable {l : Listing} (hl : l.IsFor md) {draft : DraftQuery} {spec : Specification}
  (hspec : l.specify draft = .ok spec) {execution : ExecutionRequest} {deleted : Bool}
  (hexecution : execution.spec = { spec with includeDeleted := deleted })

include hl hspec hexecution

/-- Of the page query of a valid specification, the conditions and the length of the position leave
nothing to fail. -/
theorem pageQuery_ok_iff :
    (∃ q, l.executor.pageQuery execution (l.executor.sortOf execution) = .ok q) ↔
      l.executor.Writable execution.spec := by
  obtain ⟨c, hc, rfl, -⟩ := specify_eq_ok.1 hspec
  obtain ⟨_, _, pagination, -, -, hpagination, -, haccepted⟩ := Validator.check_eq_ok hc
  have hlocated := Validator.checkPagination_located hpagination
  rw [hl.validator] at hlocated
  obtain ⟨ps, hps⟩ := Executor.predicates_ok_of_check hmd hl.executor hl.validator hc hexecution
  refine Executor.pageQuery_ok_iff hps ?_
  have hsort : l.executor.sortOf execution = md.effectiveSort c.accepted.sort := by
    rw [Executor.sortOf, hexecution, hl.executor]
  rw [hsort, hexecution, haccepted]
  exact Pagination.length_of_located hlocated

end Listing
end Served

/-! ## Requests -/

namespace Listing

variable {l : Listing} {req : ListingRequest} {e : ListingError}

/-- The answer to a request depends on no replies but those to the queries that are sent for it. -/
theorem run_eq_of_queries {s s' : RecordQuery.Store} {now : DateTime}
    (h : ∀ asked ∈ l.queries s req now, s asked = s' asked) :
    l.run s req now = l.run s' req now ∧ l.queries s req now = l.queries s' req now := by
  unfold queries run at *
  cases hplan : l.plan req with
  | error e => exact ⟨rfl, rfl⟩
  | ok planned =>
    obtain ⟨format, execution⟩ := planned
    rw [hplan] at h
    have hexecution := Executor.execute_eq_of_queries h
    simp only [bind, Except.bind, hexecution, and_self]

/-- The request is refused for what is wrong with it: it cannot be read, there is no such format, or
its draft is not valid. -/
inductive Refuses (l : Listing) (req : ListingRequest) : ListingError → Prop
  | unread {cause : ParseError} (read : DraftQuery.read req.params = .error cause) :
      Refuses l req (.ofParse cause)
  | unformatted {draft : DraftQuery} {cause : UnknownFormat}
      (read : DraftQuery.read req.params = .ok draft) (format : l.formatOf draft = .error cause) :
      Refuses l req (.unknownFormat cause)
  | invalid {draft : DraftQuery} {format : Format} {e : ListingError}
      (read : DraftQuery.read req.params = .ok draft) (formatted : l.formatOf draft = .ok format)
      (specification : l.specify (shaped format draft) = .error e) : Refuses l req e

theorem plan_of_refuses (h : l.Refuses req e) : l.plan req = .error e := by
  cases h with
  | unread read => exact bind_eq_error.2 (.inl (mapError_eq_error.2 ⟨_, read, rfl⟩))
  | unformatted read format =>
    exact bind_eq_error.2 (.inr ⟨_, mapError_eq_ok.2 read, bind_eq_error.2
      (.inl (mapError_eq_error.2 ⟨_, format, rfl⟩))⟩)
  | invalid read formatted specification =>
    exact bind_eq_error.2 (.inr ⟨_, mapError_eq_ok.2 read, bind_eq_error.2
      (.inr ⟨_, mapError_eq_ok.2 formatted, bind_eq_error.2
        (.inl (bind_eq_error.2 (.inl specification)))⟩)⟩)

/-- A request that is refused sends nothing, and fails the same with every store. -/
theorem run_of_refuses (h : l.Refuses req e) (store : RecordQuery.Store) (now : DateTime) :
    l.queries store req now = [] ∧ l.run store req now = .error e := by
  have hplan := plan_of_refuses h
  unfold queries
  rw [hplan]
  exact ⟨rfl, run_of_plan_error hplan store now⟩

/-- The execution of a valid specification asks the store for what it needs if and only if its page
query can be written. This may fail for a boolean in the position of a cursor, or for an unknown
column in the default order; nothing is asked then, and the execution ends with a fault. For a
request that is refused, no store is asked anything either. -/
theorem calls_needed_iff {m : Model} {greatest : Int} {size : Option Int} {md : Metadata}
    (hmd : Metadata.ofModel? m greatest size = .ok md) (hl : l.IsFor md)
    (hsized : l.validator.Sized) {store : RecordQuery.Store} (hcounts : store.Counts)
    {draft : DraftQuery} {spec : Specification} (hspec : l.specify draft = .ok spec)
    {execution : ExecutionRequest} {deleted : Bool}
    (hexecution : execution.spec = { spec with includeDeleted := deleted }) (now : DateTime) :
    ((∃ q, l.executor.Asks store execution q (l.executor.execute store execution now)) ↔
        l.executor.Writable execution.spec) ∧
      (¬ l.executor.Writable execution.spec →
        (l.executor.execute store execution now).queries = [] ∧
          ∃ f, (l.executor.execute store execution now).result = .error (.fault f)) ∧
      ∀ req e, l.Refuses req e → ∀ other : RecordQuery.Store,
        l.queries other req now = [] ∧ l.run other req now = .error e := by
  have hwritable := pageQuery_ok_iff hmd hl hspec hexecution
  have hlimit : 1 ≤ execution.spec.pagination.limit := by
    obtain ⟨c, hc, rfl, hdrops⟩ := specify_eq_ok.1 hspec
    rw [hexecution]
    exact (Validator.check_within hsized hc hdrops).limit.1
  have hunwritten (hno : ¬ l.executor.Writable execution.spec) :
      ∃ f, l.executor.execute store execution now = { result := .error (.fault f) } := by
    cases hq : l.executor.pageQuery execution (l.executor.sortOf execution) with
    | error f => exact ⟨f, Executor.execute_of_unwritten hq⟩
    | ok q => exact absurd (hwritable.1 ⟨q, hq⟩) hno
  refine ⟨⟨?_, ?_⟩, ?_, fun req e h other => run_of_refuses h other now⟩
  · rintro ⟨q, hasks⟩
    by_contra hno
    obtain ⟨f, hf⟩ := hunwritten hno
    rw [hf] at hasks
    by_cases hbeyond : Executor.Overshoots store execution q
    · cases hasks.counted hbeyond
    · cases hasks.once hbeyond
  · intro hyes
    obtain ⟨q, hq⟩ := hwritable.2 hyes
    exact ⟨q, Executor.execute_asks hcounts hlimit hq now⟩
  · intro hno
    obtain ⟨f, hf⟩ := hunwritten hno
    rw [hf]
    exact ⟨rfl, f, rfl⟩

/-- A store that has no rows and fails to count them. -/
def countless : RecordQuery.Store := fun q => if q.withTotal then .error .timeout else .ok {}

/-- A draft for the fifth and sixth quote. -/
def draftBehind : DraftQuery where
  grammar := .rowWindow
  pagination := { kind := .window, startRow := .int 4, endRow := .text "6" }

/-- What is executed for it. -/
def executionBehind : ExecutionRequest where
  spec := { pagination := .window { startRow := 4, endRow := 6 } }

/-- A request for quotes in the order of a field that they do not have. -/
def ghostSorted : ListingRequest where
  params := [("sort", .text "ghost")]

/-- The count behind the last quote fails, and nothing is left of the page that was answered before
it. An order by an unknown field is refused, and nothing is asked. -/
theorem countless_failed :
    (∃ q, (quoteListing.executor.execute countless executionBehind { date := default }).queries
          = [q, Executor.countQuery q] ∧
        (quoteListing.executor.execute countless executionBehind { date := default }).result
          = .error (.store "movie_quotes" q.timeout .timeout)) ∧
      quoteListing.queries countless ghostSorted { date := default } = [] ∧
        ∃ vs, quoteListing.run countless ghostSorted { date := default }
          = .error (.violations vs) := by
  have hmd : Metadata.ofModel? Catalog.movieQuotes 100 = .ok ⟨Catalog.movieQuotes, 20, 100⟩ := by
    with_unfolding_all rfl
  have hl : quoteListing.IsFor ⟨Catalog.movieQuotes, 20, 100⟩ := ⟨rfl, rfl⟩
  have hcounts : Store.Counts countless := by
    intro q reply hreply
    unfold countless at hreply
    split at hreply
    · cases hreply
    · rename_i hno
      cases hreply
      exact (Bool.eq_false_iff.2 hno).symm
  have hspec : quoteListing.specify draftBehind = .ok executionBehind.spec := by
    with_unfolding_all rfl
  have hexecution : executionBehind.spec = { executionBehind.spec with includeDeleted := false } :=
    rfl
  obtain ⟨hneeded, -, hrefused⟩ := calls_needed_iff hmd hl ⟨by decide, by decide⟩ hcounts hspec
    hexecution { date := default }
  constructor
  · obtain ⟨q, hasks⟩ := hneeded.2 ⟨by decide +kernel, nofun⟩
    have hpage : countless q = .ok {} := by
      rw [countless, hasks.withTotal]
      rfl
    have hqueries := hasks.counted ⟨⟨_, rfl, by decide⟩, rfl, {}, hpage, rfl⟩
    have hcount : Executor.countQuery q ∈
        (quoteListing.executor.execute countless executionBehind { date := default }).queries := by
      rw [hqueries]
      exact List.mem_cons_of_mem _ List.mem_cons_self
    exact ⟨q, hqueries, hasks.failed _ hcount .timeout rfl⟩
  · have hread : ∃ draft, DraftQuery.read ghostSorted.params = .ok draft ∧
        quoteListing.formatOf draft = .ok .standard ∧
        ∃ vs, quoteListing.specify (shaped .standard draft) = .error (.violations vs) := by
      refine ⟨_, by with_unfolding_all rfl, by with_unfolding_all rfl, _, by with_unfolding_all rfl⟩
    obtain ⟨draft, hread, hformat, vs, hspecify⟩ := hread
    obtain ⟨hqueries, hrun⟩ := hrefused ghostSorted _ (.invalid hread hformat hspecify) countless
    exact ⟨hqueries, vs, hrun⟩

end Listing
end RecordQuery
