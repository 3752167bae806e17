import RecordQuery.Proofs.Records

/-!
# What an execution comes to

An execution that succeeds has asked its store for the rows of a slice, and has made an envelope of
the reply.

* `Executor.execute_eq_ok`: the query, the reply and the batch behind an envelope.
* `Executor.complete_eq_ok`: the total of a batch is counted if only a count can tell it, and else
  follows from what is known.
* `Executor.execute_related`: stores whose replies show the same, and have their rows in the same
  places, give the same execution.
* `Executor.records_length_le`: an envelope shows no more rows than its slice has, whatever the
  store replies.
-/

namespace RecordQuery

open RecordQuery.Store RecordQuery.Calendar

/-- The first rows up to a number are at most as many. -/
theorem Batch.length_takeRows_le {limit : Int} (hlimit : 0 ≤ limit) (rows : List Row) :
    ((takeRows limit rows).length : Int) ≤ limit := by
  have htake : takeRows limit rows = rows.take limit.toNat := by
    rw [takeRows, if_pos hlimit]
  have hlength : (rows.take limit.toNat).length ≤ limit.toNat := List.length_take_le _ _
  rw [htake]
  omega

namespace Executor

variable {x : Executor} {store : RecordQuery.Store} {req : ExecutionRequest}
  {sort : List SortCriterion} {now : DateTime} {e : Envelope}

/-- An envelope shows the rows of its batch, and says what the batch tells of the others. -/
theorem envelope_eq_ok {b : Batch} (h : x.envelope req sort now b = .ok e) :
    b.rows.mapM x.visibleRecord = .ok e.records ∧ e.hasMore = some b.hasMore ∧
      e.totalCount = b.total.map Int.ofNat := by
  unfold envelope at h
  obtain ⟨records, hrecords, h⟩ := bind_eq_ok.1 h
  rw [pure_eq_ok] at h
  subst h
  exact ⟨hrecords, rfl, rfl⟩

theorem complete_eq_ok {q : StoreQuery} {b : Batch}
    (h : (x.complete store req sort now q b).result = .ok e) :
    ∃ total, x.envelope req sort now { b with total } = .ok e ∧
      (b.needsCount req.spec.pagination = true →
        ∃ reply, store (countQuery q) = .ok reply ∧ total = reply.total) ∧
      (b.needsCount req.spec.pagination = false →
        total = if req.spec.pagination.isCursor then b.total
          else b.knownTotal req.spec.pagination.firstRow) := by
  unfold complete at h
  cases hneeds : b.needsCount req.spec.pagination with
  | true =>
    simp only [hneeds, if_true] at h
    cases hcount : store (countQuery q) with
    | error failure =>
      simp only [hcount, failed] at h
      cases h
    | ok reply =>
      simp only [hcount] at h
      refine ⟨reply.total, mapError_eq_ok.1 h, fun _ => ⟨reply, rfl, rfl⟩, ?_⟩
      intro hno
      cases hno
  | false =>
    simp only [hneeds, Bool.false_eq_true, if_false] at h
    refine ⟨_, mapError_eq_ok.1 h, ?_, fun _ => rfl⟩
    intro hyes
    cases hyes

theorem execute_eq_ok (h : (x.execute store req now).result = .ok e) :
    ∃ q reply, x.pageQuery req (x.metadata.effectiveSort req.spec.sort) = .ok q ∧
      store q = .ok reply ∧
      (x.complete store req (x.metadata.effectiveSort req.spec.sort) now q
        (Batch.ofReply req.spec.pagination.limit reply)).result = .ok e := by
  unfold execute at h
  cases hq : x.pageQuery req (x.metadata.effectiveSort req.spec.sort) with
  | error f =>
    simp only [hq] at h
    cases h
  | ok q =>
    simp only [hq] at h
    cases hreply : store q with
    | error failure =>
      simp only [hreply, failed] at h
      cases h
    | ok reply =>
      simp only [hreply] at h
      exact ⟨q, reply, rfl, hreply, h⟩

/-- An envelope names the slice and the filters of its request, and takes no time. -/
theorem asked_of_execute (h : (x.execute store req now).result = .ok e) :
    e.pagination = req.spec.pagination ∧ e.appliedFilters = req.spec.filters ∧
      e.queryTime = some .zero := by
  obtain ⟨q, reply, -, -, hcomplete⟩ := execute_eq_ok h
  obtain ⟨total, henvelope, -, -⟩ := complete_eq_ok hcomplete
  obtain ⟨records, -, henvelope⟩ := bind_eq_ok.1 henvelope
  rw [pure_eq_ok] at henvelope
  subst henvelope
  exact ⟨rfl, rfl, rfl⟩

theorem execute_of_reply {q : StoreQuery} {reply : StoreReply}
    (hq : x.pageQuery req (x.metadata.effectiveSort req.spec.sort) = .ok q)
    (hreply : store q = .ok reply) :
    x.execute store req now = x.complete store req (x.metadata.effectiveSort req.spec.sort) now q
      (Batch.ofReply req.spec.pagination.limit reply) := by
  unfold execute
  simp only [hq, hreply]

/-- A count is answered if what it counts can be selected. -/
theorem run_countQuery {t : Table} {q : StoreQuery} {rows : List Row}
    (h : t.select q.predicates = .ok rows) :
    t.run (countQuery q) = .ok { rows := [], total := some rows.length } := by
  have hcount : t.count? (countQuery q) = .ok (some rows.length) :=
    Table.count?_eq_ok (q := countQuery q) h
  have hslice : t.slice (countQuery q) = .ok [] := rfl
  rw [Table.run, hcount, hslice]
  rfl

theorem records_length_le (h : (x.execute store req now).result = .ok e)
    (hlimit : 0 ≤ req.spec.pagination.limit) :
    (e.records.length : Int) ≤ req.spec.pagination.limit := by
  obtain ⟨q, reply, -, -, hcomplete⟩ := execute_eq_ok h
  obtain ⟨total, henvelope, -, -⟩ := complete_eq_ok hcomplete
  obtain ⟨hrecords, -, -⟩ := envelope_eq_ok henvelope
  have hlength := (mapM_eq_ok.1 hrecords).length_eq
  have hrows := Batch.length_takeRows_le hlimit reply.rows
  rw [← hlength]
  exact hrows

end Executor

/-! ## Replies that look alike -/

/-- Replies of related rows, with the same total. -/
structure Store.StoreReply.Alike (R : Row → Row → Prop) (reply reply' : StoreReply) : Prop where
  rows : List.Forall₂ R reply.rows reply'.rows
  total : reply.total = reply'.total

namespace Batch

/-- Batches of related rows, which know the same of what follows. -/
structure Alike (R : Row → Row → Prop) (b b' : Batch) : Prop where
  rows : List.Forall₂ R b.rows b'.rows
  hasMore : b.hasMore = b'.hasMore
  total : b.total = b'.total

variable {R : Row → Row → Prop} {b b' : Batch}

theorem isEmpty_congr {rows rows' : List Row} (h : List.Forall₂ R rows rows') :
    rows.isEmpty = rows'.isEmpty := by
  cases h with
  | nil => rfl
  | cons _ _ => rfl

theorem takeRows_related (limit : Int) {rows rows' : List Row} (h : List.Forall₂ R rows rows') :
    List.Forall₂ R (takeRows limit rows) (takeRows limit rows') := by
  unfold takeRows
  rw [h.length_eq]
  split
  · exact List.forall₂_take _ h
  · exact List.forall₂_take _ h

theorem alike_ofReply (limit : Int) {reply reply' : StoreReply} (h : reply.Alike R reply') :
    (ofReply limit reply).Alike R (ofReply limit reply') where
  rows := takeRows_related limit h.rows
  hasMore := by simp only [ofReply, h.rows.length_eq]
  total := h.total

theorem Alike.needsCount_eq (h : b.Alike R b') (pagination : Pagination) :
    b.needsCount pagination = b'.needsCount pagination := by
  cases pagination with
  | window w => simp only [needsCount, h.total, h.hasMore, isEmpty_congr h.rows]
  | _ => rfl

theorem Alike.knownTotal_eq (h : b.Alike R b') (offset : Nat) :
    b.knownTotal offset = b'.knownTotal offset := by
  simp only [knownTotal, h.total, h.hasMore, isEmpty_congr h.rows, h.rows.length_eq]

end Batch

namespace Executor

/-- A client sees the same of the rows, in their records and in cursors. -/
structure Indistinct (x : Executor) (sort : List SortCriterion) (row row' : Row) : Prop where
  record : x.visibleRecord row = x.visibleRecord row'
  cursor : x.cursor sort row = x.cursor sort row'

variable {x : Executor} {req : ExecutionRequest} {sort : List SortCriterion} {now : DateTime}
  {b b' : Batch}

theorem envelope_congr (h : b.Alike (x.Indistinct sort) b') :
    x.envelope req sort now b = x.envelope req sort now b' := by
  have hrecords : b.rows.map x.visibleRecord = b'.rows.map x.visibleRecord :=
    map_eq_of_forall₂ (h.rows.imp fun _ _ hrow => hrow.record)
  have hcursors : b.rows.map (x.cursor sort) = b'.rows.map (x.cursor sort) :=
    map_eq_of_forall₂ (h.rows.imp fun _ _ hrow => hrow.cursor)
  have hmapM (rows : List Row) :
      rows.mapM x.visibleRecord = (rows.map x.visibleRecord).mapM id := by
    rw [List.mapM_map]
    rfl
  unfold envelope
  simp only [hmapM, hrecords, h.hasMore, h.total, ← List.getLast?_map, ← List.head?_map, hcursors]

theorem finish_congr (h : b.Alike (x.Indistinct sort) b') :
    x.finish req sort now b = x.finish req sort now b' := by
  rw [finish, finish, envelope_congr h]

theorem complete_related {s s' : RecordQuery.Store} {q : StoreQuery}
    (hb : b.Alike (x.Indistinct sort) b')
    (hcount : Matched (StoreReply.Alike (x.Indistinct sort)) (s (countQuery q))
      (s' (countQuery q))) :
    x.complete s req sort now q b = x.complete s' req sort now q b' := by
  have htotal (total : Option Nat) :
      x.finish req sort now { b with total } = x.finish req sort now { b' with total } :=
    finish_congr ⟨hb.rows, hb.hasMore, rfl⟩
  unfold complete
  rw [hb.needsCount_eq]
  split
  · simp only
    generalize s (countQuery q) = reply, s' (countQuery q) = reply' at hcount
    cases hcount with
    | error e => rfl
    | ok hreply => simp only [hreply.total, htotal]
  · simp only [hb.total, hb.knownTotal_eq, htotal]

/-- An execution depends on the replies to its two queries, and of their rows only on what a client
sees. -/
theorem execute_related {s s' : RecordQuery.Store} (now : DateTime)
    (h : ∀ q, x.pageQuery req (x.metadata.effectiveSort req.spec.sort) = .ok q →
      ∀ query ∈ [q, countQuery q],
        Matched (StoreReply.Alike (x.Indistinct (x.metadata.effectiveSort req.spec.sort)))
          (s query) (s' query)) :
    x.execute s req now = x.execute s' req now := by
  unfold execute
  cases hq : x.pageQuery req (x.metadata.effectiveSort req.spec.sort) with
  | error f => simp only [hq]
  | ok q =>
    have hpage := h q hq q (by simp)
    have hcount := h q hq (countQuery q) (by simp)
    simp only [hq]
    generalize s q = reply, s' q = reply' at hpage
    cases hpage with
    | error e => rfl
    | ok hreply => exact complete_related (Batch.alike_ofReply _ hreply) hcount

end Executor
end RecordQuery
