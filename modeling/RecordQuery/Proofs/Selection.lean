import RecordQuery.Proofs.Results
import RecordQuery.Store.Table

/-!
# What a table answers

A query gives the rows that satisfy all its conditions, unless the store has no form for one of them
or cannot decide one for some row.

* `Table.select_eq_ok`: a selection is the rows that all conditions accept.
* `Table.select_append`: a further condition that is always decided narrows a selection.
* `Table.run_eq_ok`: a reply is a slice of the sorted selection, with the size of the selection
  without the continuation.
* `Predicate.Branches`: how the condition of coming after a position is made.
* `Predicate.Closed`: what the parts of a condition have, the condition has.
* `Predicate.isPlain`: conditions without regular expressions and without texts that are too long
  are decided for every row.
-/

namespace RecordQuery.Store

/-! ## Truth -/

theorem Truth.and_eq_true {p q : Truth} : p.and q = some true ↔ p = some true ∧ q = some true := by
  rcases p with _ | _ | _ <;> rcases q with _ | _ | _ <;> simp [Truth.and]

theorem Truth.or_eq_true {p q : Truth} : p.or q = some true ↔ p = some true ∨ q = some true := by
  rcases p with _ | _ | _ <;> rcases q with _ | _ | _ <;> simp [Truth.or]

namespace Condition

variable (row : Row)

theorem holds_eq_true {c : Condition} : c.holds row = true ↔ c.truth row = some true := by
  simp [holds]

theorem holds_and (p q : Condition) : (and p q).holds row = (p.holds row && q.holds row) := by
  rw [Bool.eq_iff_iff, Bool.and_eq_true, holds_eq_true, holds_eq_true, holds_eq_true]
  exact Truth.and_eq_true

theorem holds_or (p q : Condition) : (or p q).holds row = (p.holds row || q.holds row) := by
  rw [Bool.eq_iff_iff, Bool.or_eq_true, holds_eq_true, holds_eq_true, holds_eq_true]
  exact Truth.or_eq_true

theorem breaks_and (p q : Condition) :
    (and p q).breaks row = (p.breaks row || (p.holds row && q.breaks row)) := rfl

end Condition

/-! ## Conditions made of others -/

namespace Predicate

/-- How the alternatives for a position come about, one for each key: the row agrees with the
position in the keys before it, and is past the position in this one. -/
inductive Branches : List Predicate → List SortCriterion → List Value → List Predicate → Prop where
  | nil {agreed : List Predicate} {position : List Value} : Branches agreed [] position []
  | cons {agreed rest : List Predicate} {s : SortCriterion} {sort : List SortCriterion}
      {v : Value} {position : List Value} {past : Predicate}
      (head : beyond s.field s.direction v = .ok past)
      (tail : Branches (agreed ++ [.equal s.field v]) sort position rest) :
      Branches agreed (s :: sort) (v :: position) (agreed.foldr .and past :: rest)

theorem branches_of_ok {sort : List SortCriterion} {position : List Value}
    {agreed branches : List Predicate} (h : afterBranches agreed sort position = .ok branches) :
    Branches agreed sort position branches := by
  induction sort generalizing position agreed branches with
  | nil =>
    cases h
    exact .nil
  | cons s sort ih =>
    cases position with
    | nil => cases h
    | cons v position =>
      obtain ⟨past, hpast, h⟩ := bind_eq_ok.1 h
      obtain ⟨rest, hrest, h⟩ := bind_eq_ok.1 h
      rw [pure_eq_ok] at h
      exact h ▸ .cons hpast (ih hrest)

/-- The property holds of the condition without content, and connectives keep it. -/
structure Closed (P : Predicate → Prop) : Prop where
  always : P .always
  and {p q : Predicate} : P p → P q → P (.and p q)
  or {p q : Predicate} : P p → P q → P (.or p q)

namespace Closed

variable {P : Predicate → Prop} (hP : Closed P)

include hP

theorem disjunction {ps : List Predicate} (hps : ∀ p ∈ ps, P p) : P (disjunction ps) := by
  induction ps with
  | nil => exact hP.always
  | cons p ps ih =>
    have htail := ih fun q hq => hps q (List.mem_cons_of_mem _ hq)
    cases ps with
    | nil => exact hps p List.mem_cons_self
    | cons q qs => exact hP.or (hps p List.mem_cons_self) htail

theorem foldr_and {ps : List Predicate} {q : Predicate} (hps : ∀ p ∈ ps, P p) (hq : P q) :
    P (ps.foldr .and q) := by
  induction ps with
  | nil => exact hq
  | cons p ps ih =>
    exact hP.and (hps p List.mem_cons_self) (ih fun r hr => hps r (List.mem_cons_of_mem _ hr))

theorem branches {sort : List SortCriterion} {position : List Value}
    {agreed branches : List Predicate}
    (hsort : ∀ s ∈ sort, ∀ v, P (equal s.field v) ∧
      ∀ p, beyond s.field s.direction v = .ok p → P p)
    (hagreed : ∀ p ∈ agreed, P p) (h : Branches agreed sort position branches) :
    ∀ p ∈ branches, P p := by
  induction h with
  | nil =>
    intro p hp
    cases hp
  | @cons agreed rest s sort v position past head tail ih =>
    obtain ⟨hequal, hbeyond⟩ := hsort s List.mem_cons_self v
    have hagreed' : ∀ p ∈ agreed ++ [equal s.field v], P p := by
      intro p hp
      rcases List.mem_append.1 hp with hp | hp
      · exact hagreed p hp
      · exact List.mem_singleton.1 hp ▸ hequal
    intro p hp
    rcases List.mem_cons.1 hp with rfl | hp
    · exact hP.foldr_and hagreed (hbeyond past head)
    · exact ih (fun s hs => hsort s (List.mem_cons_of_mem _ hs)) hagreed' p hp

/-- The condition of coming after a position has what those on its columns have. -/
theorem after {sort : List SortCriterion} {position : List Value} {p : Predicate}
    (hsort : ∀ s ∈ sort, ∀ v, P (equal s.field v) ∧
      ∀ p, beyond s.field s.direction v = .ok p → P p)
    (h : after sort position = .ok p) : P p := by
  obtain ⟨branches, hbranches, rfl⟩ := map_eq_ok.1 h
  apply hP.disjunction
  apply hP.branches hsort _ (branches_of_ok hbranches)
  intro q hq
  cases hq

end Closed
end Predicate

/-! ## Conditions that are always decided -/

namespace Predicate

/-- The store takes the patterns that the condition makes of texts. -/
def isBrief : Predicate → Bool
  | .contains _ place _ text => Like.takes (Table.likePattern place text)
  | .and p q | .or p q => p.isBrief && q.isBrief
  | _ => true

/-- The condition holds no regular expression, and its texts are not too long. -/
def isPlain : Predicate → Bool
  | .pattern .. => false
  | .contains _ place _ text => Like.takes (Table.likePattern place text)
  | .and p q | .or p q => p.isPlain && q.isPlain
  | _ => true

theorem isPlain_equal (column : String) (v : Value) : (equal column v).isPlain = true := by
  cases v <;> rfl

theorem closed_isPlain : Closed fun p => p.isPlain = true where
  always := rfl
  and hp hq := by rw [isPlain, hp, hq, Bool.and_self]
  or hp hq := by rw [isPlain, hp, hq, Bool.and_self]

end Predicate

namespace Table

variable {t : Table}

/-- The store decides the condition for every row of the table. -/
def Decides (t : Table) (p : Predicate) : Prop :=
  ∀ c, t.condition? p = some c → ∀ row ∈ t.rows, c.breaks row = false

/-- A plain condition is decided for rows of any table. -/
theorem breaks_of_isPlain {p : Predicate} (hp : p.isPlain = true) {c : Condition}
    (h : t.condition? p = some c) (row : Row) : c.breaks row = false := by
  induction p generalizing c with
  | pattern => cases hp
  | and p q ihp ihq | or p q ihp ihq =>
    simp only [Predicate.isPlain, Bool.and_eq_true] at hp
    simp only [condition?, bind, Option.bind_eq_some_iff, pure, Option.some.injEq] at h
    obtain ⟨cp, hcp, cq, hcq, rfl⟩ := h
    simp [Condition.breaks, ihp hp.1 hcp, ihq hp.2 hcq]
  | between =>
    simp only [condition?, bind, Option.bind_eq_some_iff, pure, Option.some.injEq] at h
    obtain ⟨low, -, high, -, rfl⟩ := h
    rfl
  | compare | member =>
    simp only [condition?, Option.map_eq_some_iff] at h
    obtain ⟨_, -, rfl⟩ := h
    rfl
  | contains =>
    simp only [condition?, Option.map_eq_some_iff] at h
    obtain ⟨_, -, rfl⟩ := h
    rw [Predicate.isPlain] at hp
    rw [Condition.breaks, hp]
    rfl
  | always | never | isNull | isNotNull =>
    simp only [condition?, Option.some.injEq] at h
    subst h
    rfl

theorem decides_of_isPlain {p : Predicate} (hp : p.isPlain = true) : t.Decides p :=
  fun _ h row _ => breaks_of_isPlain hp h row

/-! ## Selections -/

/-- The row satisfies the condition. -/
def accepts (t : Table) (p : Predicate) (row : Row) : Bool :=
  (t.condition? p).any fun c => c.holds row

theorem accepts_of_condition? {p : Predicate} {c : Condition} (h : t.condition? p = some c)
    (row : Row) : t.accepts p row = c.holds row := by
  simp [accepts, h]

theorem accepts_and (p q : Predicate) (row : Row) :
    t.accepts (.and p q) row = (t.accepts p row && t.accepts q row) := by
  unfold accepts
  cases hp : t.condition? p with
  | none => simp [condition?, hp]
  | some c =>
    cases hq : t.condition? q with
    | none => simp [condition?, hp, hq]
    | some d => simp [condition?, hp, hq, Condition.holds_and]

theorem holds_allOf (cs : List Condition) (row : Row) :
    (allOf cs).holds row = cs.all fun c => c.holds row := by
  induction cs with
  | nil => rfl
  | cons c cs ih =>
    change (Condition.and c (allOf cs)).holds row = _
    rw [Condition.holds_and, ih, List.all_cons]

/-- Conditions are tried in order, up to the first one that does not hold. -/
theorem breaks_allOf_append (cs ds : List Condition) (row : Row) :
    (allOf (cs ++ ds)).breaks row
      = ((allOf cs).breaks row || ((allOf cs).holds row && (allOf ds).breaks row)) := by
  induction cs with
  | nil => simp [allOf, Condition.breaks, Condition.holds, Condition.truth]
  | cons c cs ih =>
    change (Condition.and c (allOf (cs ++ ds))).breaks row
      = ((Condition.and c (allOf cs)).breaks row
        || ((Condition.and c (allOf cs)).holds row && (allOf ds).breaks row))
    rw [Condition.breaks_and, Condition.breaks_and, Condition.holds_and, ih]
    cases c.breaks row <;> cases c.holds row <;> simp

theorem breaks_allOf {cs : List Condition} {row : Row} (h : ∀ c ∈ cs, c.breaks row = false) :
    (allOf cs).breaks row = false := by
  induction cs with
  | nil => rfl
  | cons c cs ih =>
    change (Condition.and c (allOf cs)).breaks row = false
    rw [Condition.breaks_and, h c List.mem_cons_self,
      ih fun d hd => h d (List.mem_cons_of_mem _ hd)]
    simp

theorem all_holds_of_mapM {ps : List Predicate} {cs : List Condition}
    (h : ps.mapM t.condition? = some cs) (row : Row) :
    (cs.all fun c => c.holds row) = ps.all fun p => t.accepts p row := by
  induction mapM_eq_some.1 h with
  | nil => rfl
  | cons hc hrest ih =>
    rw [List.all_cons, List.all_cons, ih (mapM_eq_some.2 hrest), accepts_of_condition? hc]

/-- A selection is the rows that all conditions accept. -/
theorem select_eq_ok {ps : List Predicate} {rows : List Row} :
    t.select ps = .ok rows ↔
      (∃ cs, ps.mapM t.condition? = some cs ∧ ∀ row ∈ t.rows, (allOf cs).breaks row = false) ∧
        rows = t.rows.filter fun row => ps.all fun p => t.accepts p row := by
  unfold select
  cases hcs : ps.mapM t.condition? with
  | none => simp
  | some cs =>
    have hfilter : t.rows.filter (allOf cs).holds
        = t.rows.filter fun row => ps.all fun p => t.accepts p row := by
      apply List.filter_congr
      intro row _
      rw [← all_holds_of_mapM hcs row]
      exact holds_allOf cs row
    have hany : (t.rows.any (allOf cs).breaks) = true ↔
        ¬ ∀ row ∈ t.rows, (allOf cs).breaks row = false := by
      simp
    simp only [hfilter]
    by_cases hb : t.rows.any (allOf cs).breaks
    · simp only [hb, if_true]
      constructor
      · intro h
        cases h
      · rintro ⟨⟨cs', hcs', h⟩, -⟩
        cases hcs'
        exact absurd h (hany.1 hb)
    · simp only [hb, Bool.false_eq_true, if_false, Except.ok.injEq]
      constructor
      · rintro rfl
        exact ⟨⟨cs, rfl, not_not.1 (fun h => hb (hany.2 h))⟩, rfl⟩
      · rintro ⟨-, rfl⟩
        rfl

theorem select_eq_error {ps : List Predicate} {e : StoreFailure} (h : t.select ps = .error e) :
    e = refused := by
  unfold select at h
  split at h
  · cases h
    rfl
  · simp only at h
    split at h <;> cases h
    rfl

theorem select_eq_filter {ps : List Predicate} {rows : List Row} (h : t.select ps = .ok rows) :
    rows = t.rows.filter fun row => ps.all fun p => t.accepts p row :=
  (select_eq_ok.1 h).2

/-- The conditions of a selection have forms. -/
theorem form_of_select {ps : List Predicate} {rows : List Row} (h : t.select ps = .ok rows) :
    ∀ p ∈ ps, (t.condition? p).isSome = true := by
  obtain ⟨⟨cs, hcs, -⟩, -⟩ := select_eq_ok.1 h
  intro p hp
  obtain ⟨c, -, hpc⟩ := exists_of_mem_left (mapM_eq_some.1 hcs) hp
  exact Option.isSome_iff_exists.2 ⟨c, hpc⟩

theorem mapM_append_singleton {ps : List Predicate} {cs : List Condition} {p : Predicate}
    {c : Condition} (h : ps.mapM t.condition? = some cs) (hc : t.condition? p = some c) :
    (ps ++ [p]).mapM t.condition? = some (cs ++ [c]) := by
  rw [List.mapM_append, h]
  simp [hc]

/-- A further condition that is always decided narrows a selection. -/
theorem select_append {ps : List Predicate} {rows : List Row} (h : t.select ps = .ok rows)
    {p : Predicate} {c : Condition} (hc : t.condition? p = some c)
    (hb : ∀ row, c.breaks row = false) :
    t.select (ps ++ [p]) = .ok (rows.filter (t.accepts p)) := by
  obtain ⟨⟨cs, hcs, hbreaks⟩, rfl⟩ := select_eq_ok.1 h
  refine select_eq_ok.2 ⟨⟨cs ++ [c], mapM_append_singleton hcs hc, ?_⟩, ?_⟩
  · intro row hr
    have hc : (allOf [c]).breaks row = false := breaks_allOf (by simpa using hb row)
    rw [breaks_allOf_append, hbreaks row hr, hc]
    simp
  · rw [List.filter_filter]
    apply List.filter_congr
    intro row _
    simp [Bool.and_comm]

/-- A continuation keeps of a selection what it accepts. -/
theorem filter_of_select_append {ps : List Predicate} {after : Option Predicate}
    {rows kept : List Row} (h : t.select ps = .ok rows)
    (hkept : t.select (ps ++ after.toList) = .ok kept) :
    kept = rows.filter fun row => after.all fun p => t.accepts p row := by
  rw [select_eq_filter hkept, select_eq_filter h, List.filter_filter]
  apply List.filter_congr
  intro row _
  rw [List.all_append, Bool.and_comm]
  cases after <;> simp

/-- The first conditions of a selection select by themselves. -/
theorem select_of_append {ps qs : List Predicate} {rows : List Row}
    (h : t.select (ps ++ qs) = .ok rows) :
    t.select ps = .ok (t.rows.filter fun row => ps.all fun p => t.accepts p row) := by
  obtain ⟨⟨cs, hcs, hbreaks⟩, -⟩ := select_eq_ok.1 h
  rw [List.mapM_append] at hcs
  obtain ⟨first, hfirst, hcs⟩ := Option.bind_eq_some_iff.1 hcs
  obtain ⟨second, -, hcs⟩ := Option.bind_eq_some_iff.1 hcs
  obtain rfl : first ++ second = cs := Option.some.inj hcs
  refine select_eq_ok.2 ⟨⟨first, hfirst, ?_⟩, rfl⟩
  intro row hrow
  have hboth := hbreaks row hrow
  rw [breaks_allOf_append, Bool.or_eq_false_iff] at hboth
  exact hboth.1

/-! ## Replies -/

theorem fetch_eq_ok {rows fetched : List Row} :
    t.fetch rows = .ok fetched ↔ fetched = rows ∧ ∀ row ∈ rows, t.reads row = true := by
  unfold fetch
  rw [← List.all_eq_true]
  by_cases hreads : rows.all t.reads = true
  · simp [hreads, eq_comm]
  · simp [hreads]

/-- A slice is cut out of the sorted selection and read. -/
theorem slice_eq_ok {q : StoreQuery} (hlimit : 0 < q.limit) {rows : List Row} :
    t.slice q = .ok rows ↔
      ((q.offset : Int) ≤ greatestInteger ∧ q.limit ≤ greatestInteger) ∧
      (∃ selected, t.select (q.predicates ++ q.after.toList) = .ok selected ∧
        rows = ((sort q.orderBy selected).drop q.offset).take q.limit.toNat) ∧
      ∀ row ∈ rows, t.reads row = true := by
  unfold slice
  rw [if_neg (by omega)]
  by_cases hrange : (q.offset : Int) ≤ greatestInteger ∧ q.limit ≤ greatestInteger
  · rw [if_neg (by omega), bind_eq_ok]
    simp only [fetch_eq_ok]
    constructor
    · rintro ⟨selected, hselected, rfl, hreads⟩
      exact ⟨hrange, ⟨selected, hselected, rfl⟩, hreads⟩
    · rintro ⟨-, ⟨selected, hselected, rfl⟩, hreads⟩
      exact ⟨selected, hselected, rfl, hreads⟩
  · rw [if_pos (by omega)]
    constructor
    · intro h
      cases h
    · rintro ⟨hreach, -⟩
      exact absurd hreach hrange

/-- A reply is a slice of the sorted selection, all of whose rows can be read. The continuation does
not count. -/
theorem run_eq_ok {q : StoreQuery} (hlimit : 0 < q.limit) {reply : StoreReply} :
    t.run q = .ok reply ↔
      ((q.offset : Int) ≤ greatestInteger ∧ q.limit ≤ greatestInteger) ∧
      ((∃ rows, t.select (q.predicates ++ q.after.toList) = .ok rows ∧
        reply.rows = ((sort q.orderBy rows).drop q.offset).take q.limit.toNat) ∧
        ∀ row ∈ reply.rows, t.reads row = true) ∧
      t.count? q = .ok reply.total := by
  unfold run
  rw [bind_eq_ok]
  constructor
  · rintro ⟨total, htotal, h⟩
    obtain ⟨rows, hrows, h⟩ := bind_eq_ok.1 h
    rw [pure_eq_ok] at h
    subst h
    obtain ⟨hrange, hslice⟩ := (slice_eq_ok hlimit).1 hrows
    exact ⟨hrange, hslice, htotal⟩
  · rintro ⟨hrange, hslice, htotal⟩
    exact ⟨_, htotal, bind_eq_ok.2 ⟨reply.rows, (slice_eq_ok hlimit).2 ⟨hrange, hslice⟩, rfl⟩⟩

/-- A query with numbers that the store has is answered with a slice of its selection, if this can
be read. -/
theorem run_eq_fetch {q : StoreQuery} (hlimit : 0 < q.limit)
    (hrange : (q.offset : Int) ≤ greatestInteger ∧ q.limit ≤ greatestInteger) {rows : List Row}
    (hselect : t.select (q.predicates ++ q.after.toList) = .ok rows) {total : Option Nat}
    (hcount : t.count? q = .ok total) :
    t.run q = (t.fetch (((sort q.orderBy rows).drop q.offset).take q.limit.toNat)).map
      fun rows => ⟨rows, total⟩ := by
  unfold run slice
  rw [if_neg (by omega), if_neg (by omega), hcount, hselect]
  rfl

/-- The conditions select the same, with whatever conditions after them. -/
def Interchanges (t : Table) (ps ps' : List Predicate) : Prop :=
  ∀ rest, t.select (ps ++ rest) = t.select (ps' ++ rest)

/-- Queries whose conditions select the same are answered alike. -/
theorem Interchanges.run_eq {q : StoreQuery} {ps : List Predicate}
    (h : t.Interchanges q.predicates ps) : t.run q = t.run { q with predicates := ps } := by
  have hselect : t.select q.predicates = t.select ps := by simpa using h []
  have hcount : t.count? q = t.count? { q with predicates := ps } := by
    unfold count?
    rw [hselect]
  have hslice : t.slice q = t.slice { q with predicates := ps } := by
    unfold slice
    rw [h]
  rw [run, run, hcount, hslice]

theorem count?_eq_ok {q : StoreQuery} {rows : List Row} (h : t.select q.predicates = .ok rows) :
    t.count? q = .ok (if q.withTotal then some rows.length else none) := by
  unfold count?
  cases q.withTotal with
  | false => rfl
  | true =>
    rw [h]
    rfl

end Table
end RecordQuery.Store
