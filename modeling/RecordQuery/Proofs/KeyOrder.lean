import RecordQuery.Proofs.Confinement
import RecordQuery.Proofs.Reordering

/-!
# Keys in any order

The order of the keys of a request does not matter to its answer, but for the list of the filters in
force and the cache key, in which the filters stand in the order of their keys.

* `gather_perm`: checks in another order find the same.
* `Validator.check_reordered`: a draft with its filters in another order is judged alike.
* `Table.interchanges_perm`: decided conditions may be put in any order before others.
* `Executor.execute_reordered`: envelopes differ in the order of the filters in force only.
* `Listing.run_rearranged`: requests with their keys in another order are answered alike.
* `Listing.order_matters`: where the order is seen all the same.
-/

namespace RecordQuery

open RecordQuery.Store RecordQuery.Calendar

/-! ## Checks -/

/-- Checks in another order find the same. If some of them end with faults, these may differ. -/
theorem gather_perm {α : Type} {xs xs' : List (Except Refusal α)} (hperm : xs.Perm xs') :
    Paired (fun _ _ => True)
      (fun c c' => c.violations.Perm c'.violations ∧ c.accepted.Perm c'.accepted)
      (gather xs) (gather xs') := by
  cases h : gather xs with
  | error f =>
    cases h' : gather xs' with
    | error f' => exact .error trivial
    | ok c' =>
      have hall := gathers_iff.1 ⟨c', h'⟩
      obtain ⟨c, hc⟩ := gathers_iff.2 fun x hx => hall x (hperm.mem_iff.1 hx)
      rw [h] at hc
      cases hc
  | ok c =>
    have hall := gathers_iff.1 ⟨c, h⟩
    obtain ⟨c', h'⟩ := gathers_iff.2 fun x hx => hall x (hperm.mem_iff.2 hx)
    rw [h']
    refine .ok ⟨?_, ?_⟩
    · rw [violations_of_gather h, violations_of_gather h']
      exact hperm.flatMap_right _
    · rw [accepted_of_gather h, accepted_of_gather h']
      exact hperm.filterMap _

/-- The specification with its filters in another order. -/
def Specification.Reordered (spec spec' : Specification) : Prop :=
  ∃ filters, spec.filters.Perm filters ∧ spec' = { spec with filters }

/-- A draft with its filters in another order is judged alike. -/
theorem Validator.check_reordered (v : Validator) {draft draft' : DraftQuery}
    (h : draft.Reordered draft') :
    Paired (fun _ _ => True)
      (fun c c' => c.violations.Perm c'.violations ∧ c.accepted.Reordered c'.accepted)
      (v.check draft) (v.check draft') := by
  obtain ⟨filters, hperm, rfl⟩ := h
  refine (gather_perm (hperm.map _)).bind fun c c' ⟨hviolations, haccepted⟩ => ?_
  refine Paired.bind_same (fun _ => trivial) _ fun sorts => ?_
  refine Paired.bind_same (fun _ => trivial) _ fun slice => ?_
  refine .ok ⟨?_, _, haccepted, rfl⟩
  simp only [List.append_assoc]
  exact hviolations.append_right _

/-- Errors of one kind: the same, with their violations in any order, or faults. -/
inductive ListingError.Alike : ListingError → ListingError → Prop where
  | same (e : ListingError) : Alike e e
  | violations {vs vs' : List Violation} (h : vs.Perm vs') :
      Alike (.violations vs) (.violations vs')
  | fault (f f' : Fault) : Alike (.ofFault f) (.ofFault f')

/-- The fault behind an error, if there is one. -/
def ListingError.fault? : ListingError → Option Fault
  | .execution (.fault f) => some f
  | _ => none

namespace Listing

variable (l : Listing)

theorem specify_reordered {draft draft' : DraftQuery} (h : draft.Reordered draft') :
    Paired ListingError.Alike Specification.Reordered (l.specify draft) (l.specify draft') := by
  have hpaired := l.validator.check_reordered h
  unfold specify Validator.validate
  generalize l.validator.check draft = x, l.validator.check draft' = y at hpaired
  cases hpaired with
  | error => exact .error (.fault _ _)
  | @ok c c' h =>
    have hviolations := h.1.filter fun violation => !l.validator.drops violation
    have hempty := hviolations.isEmpty_eq
    simp only [bind, Except.bind, pure, Except.pure, hempty]
    by_cases hnone : (c'.violations.filter fun violation =>
        !l.validator.drops violation).isEmpty = true
    · simp only [hnone, if_true]
      exact .ok h.2
    · simp only [hnone, Bool.false_eq_true, if_false]
      exact .error (.violations hviolations)

end Listing

/-- The same execution with the filters in another order. -/
def ExecutionRequest.Reordered (req req' : ExecutionRequest) : Prop :=
  ∃ filters, req.spec.filters.Perm filters ∧ req' = { req with spec := { req.spec with filters } }

namespace Listing

theorem shaped_reordered (format : Format) {draft draft' : DraftQuery}
    (h : draft.Reordered draft') : (shaped format draft).Reordered (shaped format draft') := by
  obtain ⟨filters, hperm, rfl⟩ := h
  unfold shaped
  split
  · exact ⟨filters, hperm, rfl⟩
  · exact ⟨filters, hperm, rfl⟩

theorem plan_reordered (l : Listing) (req : ListingRequest) {params params' : Params}
    (h : params.Alike params') :
    Paired ListingError.Alike (fun p p' => p.1 = p'.1 ∧ p.2.Reordered p'.2)
      (l.plan { req with params }) (l.plan { req with params := params' }) := by
  refine Paired.bind (R := DraftQuery.Reordered) ?_ fun draft draft' hdraft => ?_
  · have hread := DraftQuery.read_reordered h
    generalize DraftQuery.read params = x, DraftQuery.read params' = y at hread
    cases hread with
    | error e => exact .error (.same _)
    | ok h => exact .ok h
  have hformat : l.formatOf draft = l.formatOf draft' := by
    obtain ⟨filters, -, rfl⟩ := hdraft
    rfl
  rw [hformat]
  refine Paired.bind_same .same _ fun format => ?_
  have hshaped := shaped_reordered format hdraft
  refine Paired.bind (R := ExecutionRequest.Reordered) ?_
    fun execution execution' hexecution => .ok ⟨rfl, hexecution⟩
  refine (l.specify_reordered hshaped).bind fun spec spec' hspec => ?_
  obtain ⟨_, -, hothers⟩ := hshaped
  obtain ⟨filters, hperm, rfl⟩ := hspec
  rw [hothers]
  refine .ok ⟨filters, ?_, ?_⟩ <;> cases req.deletedOnly
  · exact hperm
  · exact hperm
  · rfl
  · rfl

end Listing

/-! ## Selections -/

namespace Store.Table

variable {t : Table}

/-- Decided conditions may be put in any order before others. -/
theorem interchanges_perm {ps ps' : List Predicate} (hperm : ps.Perm ps')
    (hdecided : ∀ p ∈ ps, t.Decides p) : t.Interchanges ps ps' := by
  intro rest
  have hok : ∀ {qs qs' : List Predicate} {rows}, qs.Perm qs' → (∀ p ∈ qs, t.Decides p) →
      t.select (qs ++ rest) = .ok rows → t.select (qs' ++ rest) = .ok rows := by
    intro qs qs' rows hperm hdecided h
    obtain ⟨⟨cs, hcs, hbreaks⟩, rfl⟩ := select_eq_ok.1 h
    rw [List.mapM_append] at hcs
    obtain ⟨first, hfirst, hcs⟩ := Option.bind_eq_some_iff.1 hcs
    obtain ⟨second, hsecond, hcs⟩ := Option.bind_eq_some_iff.1 hcs
    obtain rfl : first ++ second = cs := Option.some.inj hcs
    obtain ⟨first', hfirst', hforms⟩ :=
      List.perm_comp_forall₂ hperm.symm (mapM_eq_some.1 hfirst)
    refine select_eq_ok.2 ⟨⟨first' ++ second, ?_, fun row hrow => ?_⟩, ?_⟩
    · rw [List.mapM_append, mapM_eq_some.2 hfirst', hsecond]
      rfl
    · -- A decided condition breaks for no row, whatever stands before it.
      have hdecides : (allOf first').breaks row = false := breaks_allOf fun c hc => by
        obtain ⟨p, hp, hpc⟩ := exists_of_mem_right hfirst' hc
        exact hdecided p (hperm.mem_iff.2 hp) c hpc row hrow
      have hbroken := hbreaks row hrow
      rw [breaks_allOf_append, Bool.or_eq_false_iff, holds_allOf] at hbroken
      rw [breaks_allOf_append, hdecides, holds_allOf, hforms.all_eq, hbroken.2]
      rfl
    · simp only [List.all_append, hperm.all_eq]
  cases h : t.select (ps ++ rest) with
  | ok rows => exact (hok hperm hdecided h).symm
  | error e =>
    cases h' : t.select (ps' ++ rest) with
    | ok rows =>
      rw [hok hperm.symm (fun p hp => hdecided p (hperm.mem_iff.2 hp)) h'] at h
      cases h
    | error e' => rw [select_eq_error h, select_eq_error h']

end Store.Table

/-! ## Executions -/

/-- The envelope with the filters in force in another order. -/
def Envelope.Reordered (e e' : Envelope) : Prop :=
  ∃ filters, e.appliedFilters.Perm filters ∧ e' = { e with appliedFilters := filters }

/-- Errors that are of one kind for whoever asked for a listing. -/
def ExecutionError.Alike (e e' : ExecutionError) : Prop :=
  ListingError.Alike (.execution e) (.execution e')

/-- The same query with conditions that select alike before all others. -/
def Store.StoreQuery.Reordered (t : Table) (q q' : StoreQuery) : Prop :=
  ∃ ps, t.Interchanges q.predicates ps ∧ q' = { q with predicates := ps }

namespace Executor

variable {x : Executor} {t : Table} {req req' : ExecutionRequest}

theorem pageQuery_reordered (sort : List SortCriterion) (hreq : req.Reordered req')
    (h : Paired (fun _ _ => True) t.Interchanges (x.predicates req) (x.predicates req')) :
    Paired (fun _ _ => True) (StoreQuery.Reordered t) (x.pageQuery req sort)
      (x.pageQuery req' sort) := by
  obtain ⟨filters, hperm, rfl⟩ := hreq
  refine h.bind fun ps ps' hselect => ?_
  refine Paired.bind_same (fun _ => trivial) _ fun after => ?_
  refine Paired.bind_same (fun _ => trivial) _ fun keys => ?_
  exact .ok ⟨ps', hselect, rfl⟩

theorem finish_reordered (x : Executor) (hreq : req.Reordered req') (sort : List SortCriterion)
    (now : DateTime) (b : Batch) :
    Paired ExecutionError.Alike Envelope.Reordered (x.finish req sort now b)
      (x.finish req' sort now b) := by
  obtain ⟨filters, hperm, rfl⟩ := hreq
  refine Paired.mapError (E := fun _ _ => True) ?_ fun f f' _ => ListingError.Alike.fault f f'
  refine Paired.bind_same (fun _ => trivial) _ fun records => ?_
  exact .ok ⟨filters, hperm, rfl⟩

theorem complete_reordered (x : Executor) (hreq : req.Reordered req') (sort : List SortCriterion)
    (now : DateTime) (b : Batch) {q q' : StoreQuery} (hq : q.Reordered t q') :
    Paired ExecutionError.Alike Envelope.Reordered (x.complete t.run req sort now q b).result
      (x.complete t.run req' sort now q' b).result := by
  have hfinish := x.finish_reordered hreq sort now
  obtain ⟨ps, hselect, rfl⟩ := hq
  have hcount : t.run (countQuery q) = t.run (countQuery { q with predicates := ps }) :=
    Table.Interchanges.run_eq (q := countQuery q) hselect
  have hpagination : req.spec.pagination = req'.spec.pagination := by
    obtain ⟨filters, -, rfl⟩ := hreq
    rfl
  unfold complete
  rw [← hpagination]
  split
  · simp only [← hcount]
    cases t.run (countQuery q) with
    | error e => exact .error (ListingError.Alike.same _)
    | ok reply => exact hfinish _
  · exact hfinish _

section Decided

variable (hcolumns : t.columns = x.metadata.model.columns)
  (hnames : t.characterNames = x.metadata.model.characterNames) (hsound : t.Sound)
  (hcustom : ∀ e ∈ x.metadata.model.customFilters, ∀ column v, t.Decides (e.2 column v))
  (hreadable : ∀ c ∈ req.spec.filters, c.Readable x.metadata)
  (hbrief : ∀ c ∈ req.spec.filters, c.isBrief = true) (h : req.Reordered req')

include hcolumns hnames hsound hcustom hreadable hbrief h

theorem predicates_reordered :
    Paired (fun _ _ => True) t.Interchanges (x.predicates req) (x.predicates req') := by
  obtain ⟨filters, hperm, rfl⟩ := h
  have hpaired := mapM_perm (f := x.filterPredicate) (P := fun _ => True) hperm
    fun _ _ _ _ => trivial
  have hdecided : ∀ ps, req.spec.filters.mapM x.filterPredicate = .ok ps →
      ∀ p ∈ ps, t.Decides p := by
    intro ps hps p hp
    obtain ⟨c, hc, hpc⟩ := exists_of_mem_right (mapM_eq_ok.1 hps) hp
    exact filterPredicate_decided hcolumns hnames hsound hcustom (hreadable c hc) (hbrief c hc)
      hpc
  unfold predicates
  generalize List.mapM x.filterPredicate req.spec.filters = found,
    List.mapM x.filterPredicate filters = found' at hpaired hdecided
  cases hpaired with
  | error => exact .error trivial
  | @ok ps ps' hps =>
    have hfinal : ∀ search, Paired (fun _ _ : Fault => True) t.Interchanges
        (do return ps ++ search ++ (← x.visibility req.spec) ++ req.scope)
        (do return ps' ++ search ++ (← x.visibility req.spec) ++ req.scope) := by
      intro search
      refine Paired.bind_same (fun _ => trivial) _ fun visible => .ok fun rest => ?_
      simp only [List.append_assoc]
      exact Table.interchanges_perm hps (hdecided ps rfl) _
    cases req.spec.search with
    | none => exact hfinal []
    | some s => exact Paired.bind_same (fun _ => trivial) _ hfinal

/-- A request with its filters in another order has the same envelope but for that order. -/
theorem execute_reordered (now : DateTime) :
    Paired ExecutionError.Alike Envelope.Reordered (x.execute t.run req now).result
      (x.execute t.run req' now).result := by
  have hsort : req.spec.sort = req'.spec.sort ∧ req.spec.pagination = req'.spec.pagination := by
    obtain ⟨filters, -, rfl⟩ := h
    exact ⟨rfl, rfl⟩
  have hquery := pageQuery_reordered (x.metadata.effectiveSort req.spec.sort) h
    (predicates_reordered hcolumns hnames hsound hcustom hreadable hbrief h)
  unfold execute
  rw [← hsort.1, ← hsort.2]
  simp only
  generalize x.pageQuery req _ = found, x.pageQuery req' _ = found' at hquery
  cases hquery with
  | error => exact .error (ListingError.Alike.fault _ _)
  | @ok q q' hq =>
    have hsame : t.run q = t.run q' ∧ q.timeout = q'.timeout := by
      obtain ⟨ps, hselect, rfl⟩ := hq
      exact ⟨hselect.run_eq, rfl⟩
    simp only [failed, ← hsame.1, ← hsame.2]
    cases t.run q with
    | error e => exact .error (ListingError.Alike.same _)
    | ok reply => exact x.complete_reordered h _ now _ hq

end Decided

end Executor

/-! ## Answers -/

namespace Answer

/-- What is known about a response, without the filters. -/
def unfiltered : Value → Value
  | .mapping entries => .mapping (entries.filter fun e => e.1 != "filters")
  | v => v

/-- A body without what depends on the order of the filters: the list of those in force and the
cache key. -/
def bare (body : Entries) : Entries :=
  (body.filter fun e => e.1 != "cacheKey").map fun e =>
    (e.1, if e.1 = "meta" then unfiltered e.2 else e.2)

theorem bare_congr {v v' : Value} (hv : unfiltered v = unfiltered v') (start : Entries)
    {rest rest' : Entries} (hrest : bare rest = bare rest') :
    bare (start ++ ("meta", v) :: rest) = bare (start ++ ("meta", v') :: rest') := by
  unfold bare at hrest ⊢
  simp [hv, hrest]

end Answer

namespace Envelope

variable {e e' : Envelope} (h : e.Reordered e')

include h

/-- The filters in force can be shown in every order, or in none. -/
theorem filterValues_reordered :
    Paired (fun _ _ => True) (fun _ _ => True) e.filterValues e'.filterValues := by
  obtain ⟨filters, hperm, rfl⟩ := h
  have hvalues := mapM_perm (f := filterValue) (P := fun _ => True) hperm fun _ _ _ _ => trivial
  exact Paired.map (hvalues.imp (fun _ _ _ => trivial) fun _ _ => id) fun _ _ _ => trivial

theorem about_reordered :
    Paired (fun _ _ => True) (fun v v' => Answer.unfiltered v = Answer.unfiltered v')
      e.about e'.about := by
  have hfilters := filterValues_reordered h
  obtain ⟨filters, -, rfl⟩ := h
  refine Paired.bind_same (fun _ => trivial) _ fun entries => ?_
  exact hfilters.bind fun _ _ _ => .ok rfl

theorem cacheKey_reordered :
    Paired (fun _ _ => True) (fun _ _ => True) e.cacheKey e'.cacheKey := by
  have hquery : Paired (fun _ _ => True) (fun _ _ => True) e.appliedQuery e'.appliedQuery :=
    (filterValues_reordered h).bind fun _ _ _ => .ok trivial
  exact hquery.bind fun _ _ _ => .ok trivial

end Envelope

/-- Envelopes with the filters in force in another order are rendered alike. -/
theorem Format.render_reordered (format : Format) {e e' : Envelope} (h : e.Reordered e') :
    Paired (fun _ _ => True) (fun body body' => Answer.bare body = Answer.bare body')
      (format.render e) (format.render e') := by
  have habout := Envelope.about_reordered h
  have hkey := Envelope.cacheKey_reordered h
  obtain ⟨filters, hperm, rfl⟩ := h
  cases format with
  | rowModel | infiniteScroll | cursor => exact .ok rfl
  | dataTable => exact Paired.bind_same (fun _ => trivial) _ fun _ => .ok rfl
  | standard => exact habout.bind fun v v' hv => .ok (Answer.bare_congr hv _ rfl)
  | queryCache =>
    refine habout.bind fun v v' hv => ?_
    exact Paired.bind_same (fun _ => trivial) _ fun links => .ok (Answer.bare_congr hv _ rfl)
  | cacheFriendly =>
    refine habout.bind fun v v' hv => ?_
    exact hkey.bind fun _ _ _ => .ok (Answer.bare_congr hv _ rfl)

/-! ## Requests -/

/-- The parameters of pairs of a key and a text. -/
def Params.ofTexts (pairs : List (String × String)) : Params :=
  .ofPairs (pairs.map fun p => (p.1, .text p.2))

theorem Params.foldl_add_of_nodup {params pairs : List (String × Value)}
    (h : ((params ++ pairs).map (·.1)).Nodup) :
    pairs.foldl (fun params p => Params.add params p.1 p.2) params = params ++ pairs := by
  induction pairs generalizing params with
  | nil => simp
  | cons p pairs ih =>
    have hnew : p.1 ∉ params.map (·.1) := by
      intro hmem
      rw [List.map_append] at h
      exact List.disjoint_of_nodup_append h hmem (by simp)
    have hadd : Params.add params p.1 p.2 = params ++ [p] := by
      rw [Params.add, Entries.get?_of_not_mem hnew]
      exact Json.put_of_not_mem hnew _
    rw [List.foldl_cons, hadd, ih (by simpa using h)]
    simp

/-- Keys that differ from each other keep their texts. -/
theorem Params.ofTexts_of_nodup {pairs : List (String × String)} (h : (pairs.map (·.1)).Nodup) :
    ofTexts pairs = pairs.map fun p => (p.1, .text p.2) :=
  Params.foldl_add_of_nodup (by simpa [List.map_map, Function.comp_def] using h)

theorem Params.ofTexts_alike {pairs pairs' : List (String × String)}
    (hkeys : Unambiguous (pairs.map (·.1))) (hperm : pairs.Perm pairs')
    (hkept : Keeps pairs pairs') : (ofTexts pairs).Alike (ofTexts pairs') := by
  rw [ofTexts_of_nodup hkeys.nodup, ofTexts_of_nodup ((hperm.map _).nodup_iff.1 hkeys.nodup)]
  refine alike_of_perm ?_ ?_ (hperm.map _) ?_
  · simpa [List.map_map, Function.comp_def] using hkeys
  · intro e he
    obtain ⟨p, -, rfl⟩ := List.mem_map.1 he
    exact ⟨p.2, rfl⟩
  · intro e he hstem
    obtain ⟨p, hp, rfl⟩ := List.mem_map.1 he
    rw [List.filter_map, List.filter_map]
    exact congrArg _ (hkept p hp hstem)

namespace Listing

variable {l : Listing}

section Runs

variable {md : Metadata} (hl : l.IsFor md) {t : Table} (hcolumns : t.columns = md.model.columns)
  (hnames : t.characterNames = md.model.characterNames) (hsound : t.Sound)
  (hcustom : ∀ e ∈ md.model.customFilters, ∀ column v, t.Decides (e.2 column v))

include hl hcolumns hnames hsound hcustom

/-- Parameters that are read alike are answered alike. -/
theorem run_alike {params params' : Params} (h : params.Alike params') (req : ListingRequest)
    (hbrief : ∀ planned, l.plan { req with params } = .ok planned →
      ∀ c ∈ planned.2.spec.filters, c.isBrief = true) (now : DateTime) :
    Paired ListingError.Alike (fun body body' => Answer.bare body = Answer.bare body')
      (l.run t.run { req with params } now) (l.run t.run { req with params := params' } now) := by
  have hplans := l.plan_reordered req h
  have hmd : l.validator.metadata = l.executor.metadata := hl.validator.trans hl.executor.symm
  have hreadable : ∀ planned, l.plan { req with params } = .ok planned →
      ∀ c ∈ planned.2.spec.filters, c.Readable l.executor.metadata :=
    fun _ hplan => hmd ▸ readable_of_plan hplan
  unfold run
  generalize l.plan { req with params } = found, l.plan { req with params := params' } = found'
    at hplans hreadable hbrief ⊢
  cases hplans with
  | error h => exact .error h
  | @ok planned planned' h =>
    obtain ⟨format, execution⟩ := planned
    obtain ⟨_, execution'⟩ := planned'
    obtain ⟨rfl, hexecution⟩ := h
    have hexecuted := Executor.execute_reordered (t := t) (hl.executor ▸ hcolumns)
      (hl.executor ▸ hnames) hsound (hl.executor ▸ hcustom) (hreadable _ rfl) (hbrief _ rfl)
      hexecution now
    have henvelope : Paired ListingError.Alike Envelope.Reordered
        ((l.executor.execute t.run execution now).result.mapError .execution)
        ((l.executor.execute t.run execution' now).result.mapError .execution) :=
      hexecuted.mapError fun _ _ => id
    exact henvelope.bind fun e e' he =>
      (format.render_reordered he).mapError fun f f' _ => .fault f f'

/-- The order of the keys of a request does not matter, if keys that have their first two parts in
common keep theirs: they are the entries of one mapping. The request fails with an error of the same
kind and the same violations, or it is answered alike, with the same records in the same order. The
store has to decide the conditions of the filters for every row, whatever comes before them. -/
theorem run_rearranged {pairs pairs' : List (String × String)}
    (hkeys : Params.Unambiguous (pairs.map (·.1))) (hperm : pairs.Perm pairs')
    (hkept : Params.Keeps pairs pairs') (req : ListingRequest)
    (hbrief : ∀ planned, l.plan { req with params := .ofTexts pairs } = .ok planned →
      ∀ c ∈ planned.2.spec.filters, c.isBrief = true) (now : DateTime) :
    Paired ListingError.Alike (fun body body' => Answer.bare body = Answer.bare body')
      (l.run t.run { req with params := .ofTexts pairs } now)
      (l.run t.run { req with params := .ofTexts pairs' } now) :=
  run_alike hl hcolumns hnames hsound hcustom (Params.ofTexts_alike hkeys hperm hkept) req hbrief
    now

end Runs

/-- Three quotes with places of their own. -/
def quotesInPlaces : Table where
  columns := Catalog.movieQuotes.columns
  rows := [("sort_order", .integer 2) :: quoteRow 1 7 .null,
    ("sort_order", .integer 1) :: quoteRow 2 7 .null,
    ("sort_order", .integer 3) :: quoteRow 3 8 .null]

/-- A request for the quotes of nobody after the second place. -/
def quotesOfNobody : List (String × String) :=
  [("startRow", "0"), ("endRow", "1"), ("format", "cache-friendly"),
    ("filters[sort_order][type]", "greaterThan"), ("filters[sort_order][filter]", "2"),
    ("filters[character][type]", "isNull"), ("sort[0][colId]", "sort_order"),
    ("sort[0][sort]", "desc")]

theorem quotesOfNobody_rearranged :
    ∃ body body',
      quoteListing.run quotesInPlaces.run { params := .ofTexts quotesOfNobody }
        { date := default } = .ok body ∧
      quoteListing.run quotesInPlaces.run { params := .ofTexts quotesOfNobody.reverse }
        { date := default } = .ok body' ∧
      Answer.bare body = Answer.bare body' := by
  have hl : quoteListing.IsFor ⟨Catalog.movieQuotes, 20, 100⟩ := ⟨rfl, rfl⟩
  have hcustom : ∀ e ∈ Catalog.movieQuotes.customFilters, ∀ column v,
      quotesInPlaces.Decides (e.2 column v) := by
    intro e he
    cases he
  have hkeys : Params.Unambiguous (quotesOfNobody.map (·.1)) :=
    ⟨⟨by decide, by decide +kernel⟩, by decide +kernel⟩
  have hkept : Params.Keeps quotesOfNobody quotesOfNobody.reverse := by
    unfold Params.Keeps
    decide +kernel
  have hbrief : ((quoteListing.plan { params := .ofTexts quotesOfNobody }).toOption.all
      fun planned => planned.2.spec.filters.all (·.isBrief)) = true := by decide +kernel
  have hpaired := run_rearranged hl (t := quotesInPlaces) rfl rfl (by decide +kernel) hcustom hkeys
    (List.reverse_perm _).symm hkept {} (fun planned hplan => by
      rw [hplan] at hbrief
      exact List.all_eq_true.1 hbrief) { date := default }
  obtain ⟨body, hbody⟩ := exists_ok_of_isOk (x := quoteListing.run quotesInPlaces.run
    { params := .ofTexts quotesOfNobody } { date := default }) (by decide +kernel)
  rw [hbody] at hpaired
  generalize quoteListing.run quotesInPlaces.run { params := .ofTexts quotesOfNobody.reverse } _ =
    result at hpaired ⊢
  cases hpaired with
  | ok h => exact ⟨_, _, hbody, rfl, h⟩

/-- A request in the order of a column whose name is a mapping of two keys. -/
def nestedColumn (part other : String) : List (String × String) :=
  [("startRow", "0"), ("sort[0][colId][" ++ part ++ "]", ""),
    ("sort[0][colId][" ++ other ++ "]", "")]

/-- Two expressions for which the reader of expressions is not ready. -/
def brokenExpressions : List (String × String) :=
  [("filter[character][regex]", "a\x7b4294967295\x7d"),
    ("filter[character][matches]", "(?a)(?u)x")]

/-- A table of one quote. -/
def oneQuote : Table where
  columns := Catalog.movieQuotes.columns
  rows := [("character", .text "Rick") :: ("sort_order", .integer 1) :: quoteRow 1 7 .null]

/-- No quote is in the ninth place, so that the expression behind the place is not looked at. -/
def uncheckedExpression : List (String × String) :=
  [("filter[sort_order]", "9"), ("filter[character][custom]", "(")]

/-- The same with a text that is too long for the store. -/
def longCondition (text : String) : List (String × String) :=
  [("filter[sort_order]", "9"), ("filter[character][contains]", text)]

/-- The filter of the other key as it is drafted, and as it is applied. -/
def draftedPlace : DraftFilter :=
  { field := "sort_order", operator := "equals", value := .text "9" }

def inNinthPlace : FilterCriterion :=
  { field := "sort_order", operator := .equals, value := .int 9, valueType := "integer" }

theorem tree_longCondition (text : String) :
    Params.tree (.ofTexts (longCondition text)) "filter"
        = [("sort_order", .text "9"), ("character", .mapping [("contains", .text text)])] ∧
      Params.tree (.ofTexts (longCondition text).reverse) "filter"
        = [("character", .mapping [("contains", .text text)]), ("sort_order", .text "9")] := by
  have hplace : Brackets.readKey? "filter[sort_order]" = some ("filter", ["sort_order"]) := by
    decide +kernel
  have hkeys : ((longCondition text).map (·.1)).Nodup := by simp [longCondition]
  have hreversed : ((longCondition text).reverse.map (·.1)).Nodup := by simp [longCondition]
  rw [Params.ofTexts_of_nodup hkeys, Params.ofTexts_of_nodup hreversed]
  simp only [Params.tree, longCondition, List.reverse_cons, List.reverse_nil, List.nil_append,
    List.cons_append, List.map_cons, List.map_nil, List.foldl_cons, hplace, readKey?_character]
  exact ⟨rfl, rfl⟩

theorem filters_longCondition (text : String) :
    Simple.filters (.ofTexts (longCondition text)) = [draftedPlace, draftedText text] ∧
      Simple.filters (.ofTexts (longCondition text).reverse)
        = [draftedText text, draftedPlace] := by
  have hname : fieldName (.text "sort_order") = "sort_order" := by decide +kernel
  obtain ⟨htree, hreversed⟩ := tree_longCondition text
  simp only [Simple.filters, htree, hreversed, List.flatMap_cons, hname, fieldName_character,
    fieldFilters_character]
  exact ⟨rfl, rfl⟩

theorem read_longCondition (text : String) :
    DraftQuery.read (.ofTexts (longCondition text))
        = .ok (draftOf [draftedPlace, draftedText text]) ∧
      DraftQuery.read (.ofTexts (longCondition text).reverse)
        = .ok (draftOf [draftedText text, draftedPlace]) := by
  obtain ⟨hfilters, hreversed⟩ := filters_longCondition text
  constructor
  · change Except.ok (Simple.read (.ofTexts (longCondition text))) = _
    rw [Simple.read, hfilters]
    rfl
  · change Except.ok (Simple.read (.ofTexts (longCondition text).reverse)) = _
    rw [Simple.read, hreversed]
    rfl

theorem plan_longCondition {text : String} (h : text ≠ "") :
    quoteListing.plan { params := .ofTexts (longCondition text) }
      = .ok (.standard, executionWith [inNinthPlace, hasText text] []) ∧
    quoteListing.plan { params := .ofTexts (longCondition text).reverse }
      = .ok (.standard, executionWith [hasText text, inNinthPlace] []) := by
  obtain ⟨hread, hreversed⟩ := read_longCondition text
  have hplace : quoteListing.validator.metadata.checkFilter draftedPlace = .ok inNinthPlace := rfl
  have htext := checkFilter_text h
  exact ⟨plan_of_filters hread (.cons hplace (.cons htext .nil)) [],
    plan_of_filters hreversed (.cons htext (.cons hplace .nil)) []⟩

/-- The order of keys matters in four places: the text of a mapping is the name of a column in one
order only, of several faults the first one is met, and a condition that the store cannot decide,
be it by an expression or by a text that is too long, does no harm behind one that no row
satisfies. -/
theorem order_matters :
    (Params.Unambiguous ((nestedColumn "i" "d").map (·.1)) ∧
      (nestedColumn "i" "d").Perm (nestedColumn "d" "i") ∧
      (quoteListing.run noQuotes.run { params := .ofTexts (nestedColumn "i" "d") }
        { date := default }).isOk = true ∧
      (quoteListing.run noQuotes.run { params := .ofTexts (nestedColumn "d" "i") }
        { date := default }).isOk = false) ∧
    (Params.Unambiguous (brokenExpressions.map (·.1)) ∧
      (failure (quoteListing.run noQuotes.run { params := .ofTexts brokenExpressions }
        { date := default })).bind ListingError.fault? = some .tooLarge ∧
      (failure (quoteListing.run noQuotes.run { params := .ofTexts brokenExpressions.reverse }
        { date := default })).bind ListingError.fault? = some .unreadable) ∧
    (Params.Unambiguous (uncheckedExpression.map (·.1)) ∧
      (freeListing.run oneQuote.run { params := .ofTexts uncheckedExpression }
        { date := default }).isOk = true ∧
      (freeListing.run oneQuote.run { params := .ofTexts uncheckedExpression.reverse }
        { date := default }).isOk = false) ∧
    Params.Unambiguous ((longCondition longText).map (·.1)) ∧
      (quoteListing.run oneQuote.run { params := .ofTexts (longCondition longText) }
        { date := default }).isOk = true ∧
      (quoteListing.run oneQuote.run { params := .ofTexts (longCondition longText).reverse }
        { date := default }).isOk = false := by
  obtain ⟨hplan, hreversed⟩ := plan_longCondition longText_ne
  refine ⟨⟨⟨⟨by decide, by decide +kernel⟩, by decide +kernel⟩, .cons _ (.swap _ _ _), ?_, ?_⟩,
    ⟨⟨⟨by decide, by decide +kernel⟩, by decide +kernel⟩, ?_, ?_⟩,
    ⟨⟨⟨by decide, by decide +kernel⟩, by decide +kernel⟩, ?_, ?_⟩,
    ⟨⟨by decide, by decide +kernel⟩, by decide +kernel⟩, ?_, ?_⟩
  · decide +kernel
  · decide +kernel
  · decide +kernel
  · decide +kernel
  · decide +kernel
  · decide +kernel
  · have hselect : oneQuote.select [.equal "sort_order" (.int 9),
        .contains true .anywhere "character" longText, .isNull "deleted_at"] = .ok [] := rfl
    rw [(run_of_filters hplan rfl oneQuote.run _).1 (run_queryWith hselect)]
    rfl
  · have hpredicates : quoteListing.executor.predicates
        (executionWith [hasText longText, inNinthPlace] []) =
          .ok [.contains true .anywhere "character" longText, .equal "sort_order" (.int 9),
            .isNull "deleted_at"] := rfl
    exact (run_of_filters hreversed hpredicates oneQuote.run _).2 Table.refused
      (Table.run_contains_eq_refused longText_refused (by simp [oneQuote]) rfl rfl)

end Listing

end RecordQuery
