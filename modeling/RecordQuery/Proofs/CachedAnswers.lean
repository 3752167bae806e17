import RecordQuery.Proofs.CacheKeys
import RecordQuery.Proofs.Visibility

/-!
# Answers under one cache key

A client may keep an answer under its cache key, and take it for the answer to every request with
that key. This is right for the records and the totals of requests that show deleted records both or
neither; the key itself says nothing of that.

* `Pagination.eq_of_placeless`: the position of a slice follows from its cursor, whenever that was
  read.
* `Executor.execute_alike`: requests that select alike have envelopes of the same slice.
* `Listing.hashed_including`: deleted records leave the text for the digest as it is.
* `Listing.data_of_key`: answers with one cache key have the same records and the same totals.
-/

namespace RecordQuery

open RecordQuery.Store RecordQuery.Calendar

/-! ## Positions -/

/-- What is read of a token is what is signed in it, at whatever time. -/
theorem Token.verified_of_read {secret token : List Char} {now : Int} {claims : Entries}
    (h : read secret now token = .ok claims) : verified secret token = .ok claims := by
  obtain ⟨claims', hverified, h⟩ := bind_eq_ok.1 h
  obtain ⟨_, -, h⟩ := bind_eq_ok.1 h
  rwa [← pure_eq_ok.1 h]

/-- A cursor that is read at two times stands for one position. -/
theorem Cursor.decode_unique {secret : Option String} {now now' : Int} {token : String}
    {sort : List SortCriterion} {values values' : List Value}
    (h : decode secret now token sort = .ok values)
    (h' : decode secret now' token sort = .ok values') : values = values' := by
  unfold decode at h h'
  split at h
  · cases h
  simp only at h'
  split at h
  · rename_i claims hread
    split at h'
    · rename_i claims' hread'
      have hclaims := (Token.verified_of_read hread).symm.trans (Token.verified_of_read hread')
      obtain rfl := Except.ok.inj hclaims
      exact Except.ok.inj (h.symm.trans h')
    · cases h'
    · cases h'
  · cases h
  · cases h

/-- The position of the slice is the one that its cursor stands for at some time. -/
def Pagination.Located (secret : Option String) (sort : List SortCriterion) : Pagination → Prop
  | .cursor { token := some token, position, .. } =>
    ∃ now values, position = some values ∧ Cursor.decode secret now token sort = .ok values
  | .cursor { token := none, position, .. } => position = none
  | _ => True

section Positions

variable {secret : Option String} {sort : List SortCriterion} {p p' : Pagination}

theorem Pagination.eq_of_placeless (hp : p.Located secret sort) (hp' : p'.Located secret sort)
    (h : p.placeless = p'.placeless) : p = p' := by
  cases p with
  | offset page =>
    cases p' <;> cases h
    rfl
  | window rows =>
    cases p' <;> cases h
    rfl
  | cursor page =>
    cases p' with
    | offset | window => cases h
    | cursor page' =>
      obtain ⟨token, size, position, _⟩ := page
      obtain ⟨token', size', position', _⟩ := page'
      cases h
      cases token with
      | none =>
        obtain rfl : position = none := hp
        obtain rfl : position' = none := hp'
        rfl
      | some token =>
        obtain ⟨now, values, rfl, hdecode⟩ := hp
        obtain ⟨now', values', rfl, hdecode'⟩ := hp'
        rw [Cursor.decode_unique hdecode hdecode']

theorem Pagination.located_ofOffset? {page size : Int} (h : ofOffset? page size = .ok p) :
    p.Located secret sort := by
  unfold ofOffset? at h
  split at h
  · cases h
    trivial
  · cases h

theorem Pagination.located_ofWindow? {start stop : Int} (h : ofWindow? start stop = .ok p) :
    p.Located secret sort := by
  unfold ofWindow? at h
  split at h
  · cases h
    trivial
  · cases h

theorem Pagination.located_ofCursor? {token : Option String} {size : Int}
    {position : Option (List Value)} (h : ofCursor? token size position = .ok p)
    (hlocated : ∀ size_pos, Located secret sort (.cursor ⟨token, size.toNat, position, size_pos⟩)) :
    p.Located secret sort := by
  unfold ofCursor? at h
  split at h
  · cases h
    exact hlocated _
  · cases h

end Positions

namespace Validator

variable {v : Validator} {sort : List SortCriterion} {draft : DraftPagination}
  {c : Checked Pagination}

theorem checkWindow_located {secret : Option String} (h : v.checkWindow draft = .ok c) :
    c.accepted.Located secret sort := by
  unfold checkWindow at h
  simp only at h
  split at h
  · split at h
    · cases h
      trivial
    · obtain ⟨p, hp, h⟩ := bind_eq_ok.1 h
      cases h
      exact Pagination.located_ofWindow? hp
  · cases h
    trivial

theorem checkCursor_located (h : v.checkCursor sort draft = .ok c) :
    c.accepted.Located v.secret (v.metadata.effectiveSort sort) := by
  unfold checkCursor at h
  simp only at h
  split at h
  · obtain ⟨p, hp, h⟩ := bind_eq_ok.1 h
    cases h
    exact Pagination.located_ofCursor? hp fun _ => rfl
  split at h
  · rename_i position hdecode
    obtain ⟨p, hp, h⟩ := bind_eq_ok.1 h
    cases h
    exact Pagination.located_ofCursor? hp fun _ => ⟨v.now, position, rfl, hdecode⟩
  · cases h
  · obtain ⟨p, hp, h⟩ := bind_eq_ok.1 h
    cases h
    exact Pagination.located_ofCursor? hp fun _ => rfl

theorem checkPagination_located (h : v.checkPagination sort draft = .ok c) :
    c.accepted.Located v.secret (v.metadata.effectiveSort sort) := by
  unfold checkPagination at h
  cases hkind : draft.kind with
  | window =>
    rw [hkind] at h
    exact checkWindow_located h
  | cursor =>
    rw [hkind] at h
    exact checkCursor_located h
  | offset =>
    rw [hkind] at h
    obtain ⟨p, hp, h⟩ := bind_eq_ok.1 h
    cases h
    exact Pagination.located_ofOffset? hp

end Validator

theorem Listing.located_of_plan {l : Listing} {req : ListingRequest} {format : Format}
    {execution : ExecutionRequest} (h : l.plan req = .ok (format, execution)) :
    execution.spec.pagination.Located l.validator.secret
      (l.validator.metadata.effectiveSort execution.spec.sort) := by
  obtain ⟨draft, spec, -, -, hspec, rfl⟩ := plan_eq_ok.1 h
  obtain ⟨c, hc, rfl, -⟩ := specify_eq_ok.1 hspec
  obtain ⟨_, _, pagination, -, -, hpagination, -, haccepted⟩ := Validator.check_eq_ok hc
  have hlocated := Validator.checkPagination_located hpagination
  rw [haccepted]
  cases req.deletedOnly <;> exact hlocated

/-! ## Executions -/

namespace Store.Table

variable {t : Table} {ps ps' : List Predicate}

/-- Of conditions, their form for the table is all that a selection depends on. -/
theorem select_alike (h : ps.mapM t.condition? = ps'.mapM t.condition?) :
    t.select ps = t.select ps' := by
  unfold select
  rw [h]

theorem run_alike {q : StoreQuery} (h : q.predicates.mapM t.condition? = ps.mapM t.condition?) :
    t.run q = t.run { q with predicates := ps } := by
  refine Interchanges.run_eq fun rest => select_alike ?_
  rw [List.mapM_append, List.mapM_append, h]

end Store.Table

/-- Envelopes that show the same records and say the same of their slices. -/
structure Envelope.SameSlice (e e' : Envelope) : Prop where
  records : e.records = e'.records
  pagination : e.pagination = e'.pagination
  totalCount : e.totalCount = e'.totalCount
  hasMore : e.hasMore = e'.hasMore
  nextCursor : e.nextCursor = e'.nextCursor

theorem Envelope.SameSlice.pageEntries_eq {e e' : Envelope} (h : e.SameSlice e') :
    e.pageEntries = e'.pageEntries := by
  unfold pageEntries page totalPages
  rw [h.pagination, h.totalCount, h.hasMore, h.nextCursor]

namespace Executor

variable {x : Executor} {t : Table} {req req' : ExecutionRequest} {now now' : DateTime}
  {e e' : Envelope}

/-- Requests for the same slice of the rows that satisfy the same conditions, however these are
put. -/
structure SelectAlike (x : Executor) (t : Table) (req req' : ExecutionRequest) : Prop where
  conditions : ∀ ps ps', x.predicates req = .ok ps → x.predicates req' = .ok ps' →
    ps.mapM t.condition? = ps'.mapM t.condition?
  sort : x.metadata.effectiveSort req.spec.sort = x.metadata.effectiveSort req'.spec.sort
  pagination : req.spec.pagination = req'.spec.pagination
  needsTotal : req.needsTotal = req'.needsTotal

/-- What an envelope shows comes of its batch, its order and its slice. -/
theorem envelope_alike {sort : List SortCriterion} {b : Batch}
    (hpagination : req.spec.pagination = req'.spec.pagination)
    (h : x.envelope req sort now b = .ok e) (h' : x.envelope req' sort now' b = .ok e') :
    e.SameSlice e' := by
  obtain ⟨records, hrecords, h⟩ := bind_eq_ok.1 h
  obtain ⟨records', hrecords', h'⟩ := bind_eq_ok.1 h'
  rw [pure_eq_ok] at h h'
  obtain rfl := Except.ok.inj (hrecords.symm.trans hrecords')
  subst h h'
  simp only [hpagination]
  exact ⟨rfl, rfl, rfl, rfl, rfl⟩

theorem execute_alike (h : x.SelectAlike t req req')
    (he : (x.execute t.run req now).result = .ok e)
    (he' : (x.execute t.run req' now').result = .ok e') : e.SameSlice e' := by
  obtain ⟨q, reply, hq, hreply, hcomplete⟩ := execute_eq_ok he
  obtain ⟨q', reply', hq', hreply', hcomplete'⟩ := execute_eq_ok he'
  obtain ⟨ps, after, hps, hafter, -, rfl⟩ := pageQuery_eq_ok hq
  obtain ⟨ps', after', hps', hafter', -, rfl⟩ := pageQuery_eq_ok hq'
  rw [← h.sort, ← h.pagination] at hafter' hreply' hcomplete'
  rw [hafter] at hafter'
  obtain rfl := Except.ok.inj hafter'
  -- The queries differ in how the conditions are put, so that the replies are the same.
  have hconditions := h.conditions ps ps' hps hps'
  rw [Table.run_alike hconditions, h.needsTotal, hreply'] at hreply
  obtain rfl := Except.ok.inj hreply
  obtain ⟨total, henvelope, hcounted, hknown⟩ := complete_eq_ok hcomplete
  obtain ⟨total', henvelope', hcounted', hknown'⟩ := complete_eq_ok hcomplete'
  rw [← h.pagination] at hcounted' hknown'
  have htotal : total = total' := by
    cases hneeds : (Batch.ofReply req.spec.pagination.limit reply').needsCount
        req.spec.pagination with
    | true =>
      obtain ⟨count, hcount, rfl⟩ := hcounted hneeds
      obtain ⟨count', hcount', rfl⟩ := hcounted' hneeds
      rw [Table.run_alike (q := countQuery _) hconditions] at hcount
      rw [Except.ok.inj (hcount.symm.trans hcount')]
    | false => rw [hknown hneeds, hknown' hneeds]
  subst htotal
  exact envelope_alike h.pagination henvelope henvelope'

/-- What a specification says of deleted records matters only to a model that keeps them. -/
theorem visibility_congr {spec spec' : Specification}
    (h : x.metadata.model.softDeleteField = none ∨ spec.includeDeleted = spec'.includeDeleted) :
    x.visibility spec = x.visibility spec' := by
  unfold visibility
  rcases h with hnone | hsame
  · rw [hnone]
  · rw [hsame]

/-- Requests with filters that are written alike, and the same search, visibility and scope, have
the same conditions. -/
theorem predicates_alike (hcustom : x.metadata.ReadsTexts)
    (hchecks : ∀ c ∈ req.spec.filters, x.metadata.Checks c)
    (hchecks' : ∀ c ∈ req'.spec.filters, x.metadata.Checks c)
    (hfilters : List.Forall₂ FilterCriterion.WrittenAlike req.spec.filters req'.spec.filters)
    (hsearch : req.spec.search = req'.spec.search)
    (hvisibility : x.visibility req.spec = x.visibility req'.spec)
    (hscope : req.scope = req'.scope) {ps ps' : List Predicate}
    (hps : x.predicates req = .ok ps) (hps' : x.predicates req' = .ok ps') :
    ps.mapM t.condition? = ps'.mapM t.condition? := by
  obtain ⟨filters, visible, hf, hv, rfl⟩ := predicates_eq_ok hps
  obtain ⟨filters', visible', hf', hv', rfl⟩ := predicates_eq_ok hps'
  rw [← hvisibility, hv] at hv'
  obtain rfl := Except.ok.inj hv'
  have hsame := filterPredicates_alike (t := t) hcustom hchecks hchecks' hfilters
    (mapM_eq_ok.2 hf) (mapM_eq_ok.2 hf')
  rw [← hsearch, ← hscope]
  simp only [List.mapM_append, hsame]

end Executor

/-! ## Keys -/

/-- What an envelope says of what was asked, before there are any rows. -/
def Executor.asked (x : Executor) (req : ExecutionRequest) : Envelope where
  pagination := req.spec.pagination
  appliedFilters := req.spec.filters
  appliedSort := x.metadata.effectiveSort req.spec.sort
  appliedSearch := req.spec.search
  resourcePath := req.resourcePath
  generatedAt := default

/-- The text for a digest does not depend on the rows. -/
theorem Executor.keyText_of_execute {x : Executor} {store : RecordQuery.Store}
    {req : ExecutionRequest} {now : DateTime} {e : Envelope}
    (h : (x.execute store req now).result = .ok e) : e.keyText = (x.asked req).keyText := by
  obtain ⟨q, reply, -, -, hcomplete⟩ := execute_eq_ok h
  obtain ⟨total, henvelope, -, -⟩ := complete_eq_ok hcomplete
  obtain ⟨records, -, henvelope⟩ := bind_eq_ok.1 henvelope
  rw [pure_eq_ok] at henvelope
  subst henvelope
  rfl

/-- What a body says of its slice, its totals among it. -/
def Answer.slice? (body : Entries) : Option Value :=
  ((body.get? "meta").bind Value.entries?).bind (·.get? "pagination")

/-- No other format has a cache key. -/
theorem Format.cacheFriendly_of_key {format : Format} {e : Envelope} {body : Entries} {key : Value}
    (h : format.render e = .ok body) (hkey : body.get? "cacheKey" = some key) :
    format = .cacheFriendly := by
  cases format with
  | cacheFriendly => rfl
  | standard | dataTable =>
    obtain ⟨_, -, h⟩ := bind_eq_ok.1 h
    cases h
    cases hkey
  | queryCache =>
    obtain ⟨_, -, h⟩ := bind_eq_ok.1 h
    obtain ⟨_, -, h⟩ := bind_eq_ok.1 h
    cases h
    cases hkey
  | rowModel =>
    cases h
    cases hkey
  | infiniteScroll =>
    cases h
    unfold Envelope.renderInfiniteScroll at hkey
    cases htotal : e.totalCount <;> (rw [htotal] at hkey; cases hkey)
  | cursor =>
    cases h
    unfold Envelope.renderCursor at hkey
    cases htotal : e.totalCount <;> (rw [htotal] at hkey; cases hkey)

theorem Format.render_cacheFriendly {e : Envelope} {body : Entries}
    (h : cacheFriendly.render e = .ok body) :
    ∃ entries text, e.pageEntries = .ok entries ∧ e.keyText = .ok text ∧
      Answer.slice? body = some (.mapping entries) ∧
      body.get? "cacheKey" = some (.text (.ofList (Digest.sha256Hex text))) := by
  obtain ⟨about, habout, h⟩ := bind_eq_ok.1 h
  obtain ⟨digest, hdigest, h⟩ := bind_eq_ok.1 h
  obtain ⟨entries, hentries, habout⟩ := bind_eq_ok.1 habout
  obtain ⟨filters, hfilters, habout⟩ := bind_eq_ok.1 habout
  rw [pure_eq_ok] at h habout
  subst h habout
  rw [Envelope.cacheKey_eq] at hdigest
  obtain ⟨text, htext, rfl⟩ := map_eq_ok.1 hdigest
  exact ⟨entries, text, hentries, htext, rfl, rfl⟩

namespace Listing

variable {l : Listing} {req req' : ListingRequest}

/-- The text is the one that a cache key for the request is the digest of. -/
def Hashes (l : Listing) (req : ListingRequest) (text : List Char) : Prop :=
  ∃ format execution, l.plan req = .ok (format, execution) ∧
    (l.executor.asked execution).keyText = .ok text

theorem hashes_of_plan {format : Format} {execution : ExecutionRequest}
    (hplan : l.plan req = .ok (format, execution)) {text : List Char} :
    l.Hashes req text ↔ (l.executor.asked execution).keyText = .ok text := by
  constructor
  · rintro ⟨_, _, hplanned, htext⟩
    rw [hplan] at hplanned
    cases hplanned
    exact htext
  · exact fun htext => ⟨format, execution, hplan, htext⟩

/-- What a request says of deleted records leaves the text for the digest as it is. -/
theorem hashed_including (hnone : req.params.first Params.visibilityKeys = .null) {key : String}
    (hkey : key ∈ Params.visibilityKeys) (v : Value) {text : List Char}
    (h : l.Hashes { req with params := req.params.put key v } text) : l.Hashes req text := by
  obtain ⟨format, execution, hplan, htext⟩ := h
  obtain ⟨-, plain, hplain, rfl⟩ := (plan_including req hnone hkey v).1 hplan
  exact ⟨format, plain, hplain, htext⟩

section Runs

variable {store : RecordQuery.Store} {now : DateTime} {body : Entries}

/-- An answer with a cache key is in the format that has one. -/
theorem plan_of_key {key : Value} (h : l.run store req now = .ok body)
    (hkey : body.get? "cacheKey" = some key) :
    ∃ execution, l.plan req = .ok (.cacheFriendly, execution) := by
  obtain ⟨⟨format, execution⟩, hplan, -⟩ := bind_eq_ok.1 h
  obtain ⟨e, -, hrender⟩ := (run_eq_ok hplan).1 h
  obtain rfl := Format.cacheFriendly_of_key hrender hkey
  exact ⟨execution, hplan⟩

/-- The key of an answer, its records and what it says of its slice. -/
theorem cached_of_run {execution : ExecutionRequest}
    (hplan : l.plan req = .ok (.cacheFriendly, execution)) (h : l.run store req now = .ok body) :
    ∃ e entries text, (l.executor.execute store execution now).result = .ok e ∧
      body.get? "data" = some (.list (e.records.map .mapping)) ∧
      e.pageEntries = .ok entries ∧ Answer.slice? body = some (.mapping entries) ∧
      (l.executor.asked execution).keyText = .ok text ∧
      body.get? "cacheKey" = some (.text (.ofList (Digest.sha256Hex text))) := by
  obtain ⟨e, he, hrender⟩ := (run_eq_ok hplan).1 h
  obtain ⟨entries, text, hentries, htext, hslice, hkey⟩ := Format.render_cacheFriendly hrender
  rw [Executor.keyText_of_execute he] at htext
  exact ⟨e, entries, text, he, Format.render_data hrender, hentries, hslice, htext, hkey⟩

end Runs

theorem needsTotal_of_plan {format : Format} {execution : ExecutionRequest}
    (h : l.plan req = .ok (format, execution)) (hformat : format.needsTotal = true) :
    execution.needsTotal = true := by
  obtain ⟨draft, spec, -, -, -, rfl⟩ := plan_eq_ok.1 h
  simp only [hformat, Bool.true_or]

/-- Requests with one text for the digest select alike, if they show deleted records alike. -/
theorem selectAlike_of_keyText {md : Metadata} (hl : l.IsFor md) (hcustom : md.ReadsTexts)
    (hparams : ∀ e ∈ req.params, e.2.Doubles) (hparams' : ∀ e ∈ req'.params, e.2.Doubles)
    (hscope : req.scope = req'.scope)
    (hshown : md.model.softDeleteField = none ∨ req.showsDeleted = req'.showsDeleted)
    {time time' : Int} {execution execution' : ExecutionRequest}
    (hplan : (l.at time).plan req = .ok (.cacheFriendly, execution))
    (hplan' : (l.at time').plan req' = .ok (.cacheFriendly, execution')) {text : List Char}
    (htext : (l.executor.asked execution).keyText = .ok text)
    (htext' : (l.executor.asked execution').keyText = .ok text) (t : Table) :
    l.executor.SelectAlike t execution execution' := by
  obtain ⟨hplaceless, hfilters, hsort, hsearch⟩ := Envelope.askedAlike_of_keyText htext htext'
  have hmd : l.validator.metadata = l.executor.metadata := hl.validator.trans hl.executor.symm
  have hchecks := checks_of_plan hparams hplan
  have hchecks' := checks_of_plan hparams' hplan'
  have hlocated := located_of_plan hplan
  have hlocated' := located_of_plan hplan'
  simp only [«at», Validator.at, hmd] at hchecks hchecks' hlocated hlocated'
  have hvisibility : l.executor.visibility execution.spec
      = l.executor.visibility execution'.spec := by
    apply Executor.visibility_congr
    rw [hl.executor, includeDeleted_of_plan hplan, includeDeleted_of_plan hplan']
    exact hshown
  constructor
  · intro ps ps' hps hps'
    rw [← hl.executor] at hcustom
    exact Executor.predicates_alike hcustom hchecks hchecks' hfilters hsearch hvisibility
      (by rw [scope_of_plan hplan, scope_of_plan hplan', hscope]) hps hps'
  · exact hsort
  · change l.executor.metadata.effectiveSort _ = l.executor.metadata.effectiveSort _ at hsort
    rw [← hsort] at hlocated'
    exact Pagination.eq_of_placeless hlocated hlocated' hplaceless
  · rw [needsTotal_of_plan hplan rfl, needsTotal_of_plan hplan' rfl]

/-- Two answers with one cache key have the same records and say the same of their slices, totals
included, whenever they are asked for. The key says nothing of deleted records, so that both
requests have to show them or neither; of an operand it tells the text only, which has to be all
that custom filters look at. No two texts for the digests of the requests may collide. -/
theorem data_of_key {md : Metadata} (hl : l.IsFor md) (hcustom : md.ReadsTexts) {t : Table}
    (hparams : ∀ e ∈ req.params, e.2.Doubles) (hparams' : ∀ e ∈ req'.params, e.2.Doubles)
    (hscope : req.scope = req'.scope)
    (hshown : md.model.softDeleteField = none ∨ req.showsDeleted = req'.showsDeleted)
    {time time' : Int} {now now' : DateTime} {body body' : Entries} {key : Value}
    (hcollision : ∀ text text', (l.at time).Hashes req text → (l.at time').Hashes req' text' →
      Digest.sha256Hex text = Digest.sha256Hex text' → text = text')
    (h : (l.at time).run t.run req now = .ok body)
    (h' : (l.at time').run t.run req' now' = .ok body')
    (hkey : body.get? "cacheKey" = some key) (hkey' : body'.get? "cacheKey" = some key) :
    body.get? "data" = body'.get? "data" ∧ Answer.slice? body = Answer.slice? body' := by
  obtain ⟨execution, hplan⟩ := plan_of_key h hkey
  obtain ⟨execution', hplan'⟩ := plan_of_key h' hkey'
  obtain ⟨e, entries, text, he, hdata, hentries, hslice, htext, hdigest⟩ := cached_of_run hplan h
  obtain ⟨e', entries', text', he', hdata', hentries', hslice', htext', hdigest'⟩ :=
    cached_of_run hplan' h'
  rw [hkey, ← hkey', hdigest', Option.some.injEq, Value.text.injEq] at hdigest
  obtain rfl := hcollision text text' ⟨_, _, hplan, htext⟩ ⟨_, _, hplan', htext'⟩
    (String.ofList_injective hdigest).symm
  have halike := Executor.execute_alike
    (selectAlike_of_keyText hl hcustom hparams hparams' hscope hshown hplan hplan' htext htext' t)
    he he'
  rw [halike.pageEntries_eq, hentries'] at hentries
  obtain rfl := Except.ok.inj hentries
  rw [hdata, hdata', hslice, hslice', halike.records]
  exact ⟨rfl, rfl⟩

/-- A row for a quote with a place of its own among the others. -/
def placedQuote (id place : Nat) (deleted : Cell) : Row :=
  ("sort_order", .integer place) :: quoteRow id 7 deleted

/-- Four quotes, of which one is deleted. -/
def quotesPlaced : Table where
  columns := Catalog.movieQuotes.columns
  rows := [placedQuote 1 6 .null, placedQuote 2 4 .null, placedQuote 3 5 .null,
    placedQuote 4 7 (.text "2026-01-01 00:00:00.000000")]

/-- A request for the quotes from the sixth place on, for a cache. -/
def cachedQuotes : ListingRequest where
  params := [("format", .text "cache-friendly"), ("pageSize", .text "2"),
    ("filter[sort_order][gte]", .text "6")]

/-- The same in other words, with the order in force and the number of the page. -/
def cachedQuotesAgain : ListingRequest where
  params := [("filter[sort_order][>=]", .text " 06 "), ("sort", .text "sort_order"),
    ("page", .text "1"), ("limit", .text " 2 "), ("responseFormat", .text "SWR")]

/-- What is executed for the quotes from the sixth place on. -/
def executionOfQuotes : ExecutionRequest where
  spec := {
    filters := [{
      field := "sort_order", operator := .gte, value := .int 6, valueType := "integer" }]
    pagination := .offset {
      page := 1, pageSize := 2, page_pos := Nat.zero_lt_one, size_pos := Nat.zero_lt_two } }
  needsTotal := true

/-- The same in an order. -/
def executionOfSorted : ExecutionRequest :=
  { executionOfQuotes with
    spec := { executionOfQuotes.spec with sort := [{ field := "sort_order" }] } }

/-- Two requests for the same quotes have one cache key, and so the same records. -/
theorem cachedQuotes_shared :
    ∃ body body' key,
      (quoteListing.at 0).run quotesPlaced.run cachedQuotes { date := default } = .ok body ∧
      (quoteListing.at 60).run quotesPlaced.run cachedQuotesAgain { date := default } = .ok body' ∧
      body.get? "cacheKey" = some key ∧ body'.get? "cacheKey" = some key ∧
      body.get? "data" = body'.get? "data" ∧ Answer.slice? body = Answer.slice? body' := by
  have hl : quoteListing.IsFor ⟨Catalog.movieQuotes, 20, 100⟩ := ⟨rfl, rfl⟩
  have hplan : (quoteListing.at 0).plan cachedQuotes
      = .ok (.cacheFriendly, executionOfQuotes) := by
    with_unfolding_all rfl
  have hplan' : (quoteListing.at 60).plan cachedQuotesAgain
      = .ok (.cacheFriendly, executionOfSorted) := by
    with_unfolding_all rfl
  obtain ⟨body, hbody⟩ := exists_ok_of_isOk (x := (quoteListing.at 0).run quotesPlaced.run
    cachedQuotes { date := default }) (by decide +kernel)
  obtain ⟨body', hbody'⟩ := exists_ok_of_isOk (x := (quoteListing.at 60).run quotesPlaced.run
    cachedQuotesAgain { date := default }) (by decide +kernel)
  obtain ⟨-, -, text, -, -, -, -, htext, hkey⟩ := cached_of_run hplan hbody
  obtain ⟨-, -, text', -, -, -, -, htext', hkey'⟩ := cached_of_run hplan' hbody'
  -- The default order is the one that the second request writes out.
  have hasked : quoteListing.executor.asked executionOfQuotes
      = quoteListing.executor.asked executionOfSorted := rfl
  obtain rfl : text = text' := Except.ok.inj ((hasked ▸ htext).symm.trans htext')
  have hparams : ∀ e ∈ cachedQuotes.params, e.2.Doubles := by
    simp [cachedQuotes, Value.Doubles]
  have hparams' : ∀ e ∈ cachedQuotesAgain.params, e.2.Doubles := by
    simp [cachedQuotesAgain, Value.Doubles]
  have hcollision : ∀ s s', (quoteListing.at 0).Hashes cachedQuotes s →
      (quoteListing.at 60).Hashes cachedQuotesAgain s' →
      Digest.sha256Hex s = Digest.sha256Hex s' → s = s' := by
    intro s s' hs hs' _
    rw [hashes_of_plan hplan, htext] at hs
    rw [hashes_of_plan hplan', htext'] at hs'
    rw [← Except.ok.inj hs, ← Except.ok.inj hs']
  have hshown : cachedQuotes.showsDeleted = cachedQuotesAgain.showsDeleted := by decide +kernel
  have hcustom : Metadata.ReadsTexts ⟨Catalog.movieQuotes, 20, 100⟩ := by
    intro _ _ hfilter
    cases hfilter
  obtain ⟨hdata, hslice⟩ := data_of_key hl hcustom hparams hparams' rfl (.inr hshown) hcollision
    hbody hbody' hkey hkey'
  exact ⟨body, body', _, hbody, hbody', hkey, hkey', hdata, hslice⟩

end Listing
end RecordQuery
