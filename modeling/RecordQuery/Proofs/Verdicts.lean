import RecordQuery.Proofs.Bounds
import RecordQuery.Proofs.Criteria
import RecordQuery.Proofs.Operands
import RecordQuery.Proofs.Overflow
import RecordQuery.Proofs.Readings

/-!
# Verdicts

A validator comes to a verdict on a draft, and objects to every operand that it cannot accept. Only
a few operands and cursors keep it from a verdict.

* `Faults`: a check that ends with a fault instead of violations.
* `Value.Uncoerced`: the values that requests hold, before they are brought to a kind.
* `Metadata.Upsets`: the operands that a check of a filter is not ready for: integers beyond the
  doubles, and expressions with a count or switches that cannot be, or that go too deep.
* `Cursor.Upsets`: the tokens that the reader of cursors is not ready for; `cause_of_unchecked` says
  which of them have a signature that cannot be checked.
* `Validator.verdict_iff`: a draft gets a verdict unless one of its operands or its cursor upsets
  the validator, and the verdict objects to every operand that is refused.
-/

namespace RecordQuery

open RecordQuery.Number

/-! ## Faults -/

section Faults

variable {ε α β : Type}

/-- A computation whose last step cannot fail. -/
theorem bind_pure_ok_iff {x : Except ε α} {g : α → β} :
    (∃ b, (x >>= fun a => pure (g a)) = .ok b) ↔ ∃ a, x = .ok a := by
  simp only [bind_eq_ok, pure_eq_ok]
  constructor
  · rintro ⟨b, a, ha, -⟩
    exact ⟨a, ha⟩
  · rintro ⟨a, ha⟩
    exact ⟨g a, a, ha, rfl⟩

/-- The check ends with a fault. -/
def Faults (x : Except Refusal α) : Prop := ∃ f, x = .error (.fault f)

@[simp] theorem faults_fault (f : Fault) : Faults (.error (.fault f) : Except Refusal α) := ⟨f, rfl⟩

@[simp] theorem not_faults_ok (a : α) : ¬ Faults (.ok a) := by
  simp [Faults]

@[simp] theorem not_faults_violations (vs : List Violation) :
    ¬ Faults (.error (.violations vs) : Except Refusal α) := by
  simp [Faults]

/-- Checks are gathered unless one of them ends with a fault. -/
theorem gathers_iff {xs : List (Except Refusal α)} :
    (∃ c, gather xs = .ok c) ↔ ∀ x ∈ xs, ¬ Faults x := by
  induction xs with
  | nil => simp [gather]
  | cons x xs ih =>
    rw [List.forall_mem_cons, ← ih]
    rcases x with (vs | f) | a
    · simp only [gather, not_faults_violations, not_false_eq_true, true_and]
      cases gather xs <;> simp [bind, Except.bind, pure, Except.pure]
    · simp [gather]
    · simp only [gather, not_faults_ok, not_false_eq_true, true_and]
      cases gather xs <;> simp [bind, Except.bind, pure, Except.pure]

theorem accepted_of_gather {xs : List (Except Refusal α)} {c : Checked (List α)}
    (h : gather xs = .ok c) : c.accepted = xs.filterMap Except.toOption := by
  induction xs generalizing c with
  | nil =>
    cases h
    rfl
  | cons x xs ih =>
    rcases x with (vs | f) | a
    · obtain ⟨rest, hrest, h⟩ := bind_eq_ok.1 h
      rw [pure_eq_ok] at h
      subst h
      have hrest := ih hrest
      exact hrest
    · cases h
    · obtain ⟨rest, hrest, h⟩ := bind_eq_ok.1 h
      rw [pure_eq_ok] at h
      subst h
      exact congrArg (a :: ·) (ih hrest)

/-- The violations that a check ends with. -/
def objections : Except Refusal α → List Violation
  | .error (.violations vs) => vs
  | _ => []

theorem violations_of_gather {xs : List (Except Refusal α)} {c : Checked (List α)}
    (h : gather xs = .ok c) : c.violations = xs.flatMap objections := by
  induction xs generalizing c with
  | nil =>
    cases h
    rfl
  | cons x xs ih =>
    rcases x with (vs | f) | a
    · obtain ⟨rest, hrest, h⟩ := bind_eq_ok.1 h
      rw [pure_eq_ok] at h
      subst h
      exact congrArg (vs ++ ·) (ih hrest)
    · cases h
    · obtain ⟨rest, hrest, h⟩ := bind_eq_ok.1 h
      rw [pure_eq_ok] at h
      subst h
      have hrest := ih hrest
      exact hrest

/-- What is gathered holds the violations of all checks, and no others. -/
theorem mem_violations_iff {xs : List (Except Refusal α)} {c : Checked (List α)}
    (h : gather xs = .ok c) {w : Violation} :
    w ∈ c.violations ↔ ∃ vs, .error (.violations vs) ∈ xs ∧ w ∈ vs := by
  rw [violations_of_gather h, List.mem_flatMap]
  constructor
  · rintro ⟨(vs | f) | a, hx, hw⟩
    · exact ⟨vs, hx, hw⟩
    · cases hw
    · cases hw
  · rintro ⟨vs, hx, hw⟩
    exact ⟨_, hx, hw⟩

end Faults

/-! ## Values of requests -/

namespace Value

mutual

/-- No part of the value is a decimal, a time or an identifier: only coercion makes those. -/
def Uncoerced : Value → Prop
  | .null | .bool _ | .int _ | .float _ | .text _ => True
  | .list items => UncoercedList items
  | .tuple items => UncoercedList items
  | .mapping entries => UncoercedEntries entries
  | _ => False

def UncoercedList : List Value → Prop
  | [] => True
  | v :: rest => Uncoerced v ∧ UncoercedList rest

def UncoercedEntries : Entries → Prop
  | [] => True
  | (_, v) :: rest => Uncoerced v ∧ UncoercedEntries rest

end

end Value

/-! ## Operands -/

namespace Metadata

variable {md : Metadata} {field : String} {op : Operator} {raw : Value}

/-- An integer to which no double is near, for a field of doubles. -/
def Overflows (md : Metadata) (field : String) (raw : Value) : Prop :=
  md.kind field = .float ∧ ∃ n : Int, raw = .int n ∧ Binary64.overflowInteger ≤ n.natAbs

theorem isSignaling_of_isDecimalNan {v : Value} (h : isDecimalNan v = false) :
    isSignaling v = false := by
  cases v with
  | decimal d =>
    cases d with
    | nan => cases h
    | _ => rfl
  | _ => rfl

theorem addDistinct_ok {values : List Value} {v : Value}
    (hvalues : ∀ u ∈ v :: values, isDecimalNan u = false) :
    ∃ values', addDistinct values v = .ok values' ∧ ∀ u ∈ values', isDecimalNan u = false := by
  have hquiet : (v :: values).any isSignaling = false :=
    List.any_eq_false.2 fun u hu => by simp [isSignaling_of_isDecimalNan (hvalues u hu)]
  refine ⟨if values.any v.eqv then values else values ++ [v], ?_, ?_⟩
  · simp only [addDistinct, hquiet, Bool.and_false, Bool.false_eq_true, if_false]
  split
  · exact fun u hu => hvalues u (List.mem_cons_of_mem v hu)
  · simpa [or_imp, forall_and, and_comm] using hvalues

/-- An integer is neither a collection nor blank. -/
theorem Overflows.single (h : md.Overflows field raw) :
    isCollection raw = false ∧ isBlankFor (md.kind field) raw = false := by
  obtain ⟨-, n, rfl, -⟩ := h
  exact ⟨rfl, rfl⟩

theorem checkFilter_eq {f : DraftFilter} (hfield : md.isFilterable f.field = true)
    (hop : Operator.ofName? f.operator = some op) (hsupports : md.supports f.field op = true) :
    md.checkFilter f = (md.operand f.field op f.value).map fun value =>
      { field := f.field
        operator := op
        value
        valueType := (md.kind f.field).name
        caseSensitive := md.isCaseSensitive f.field } := by
  simp only [checkFilter, hfield, hop, hsupports, Bool.not_true, Bool.false_eq_true, if_false]

/-- The violations by an operand: they are about its field, no mode drops them, and each shows the
operand or one of its members. -/
structure Objects (field : String) (raw : Value) (vs : List Violation) : Prop where
  ne_nil : vs ≠ []
  field_eq : ∀ w ∈ vs, w.field = field
  kept : ∀ w ∈ vs, w.reason.isWhitelist = false
  shown : ∀ w ∈ vs, ∃ r ∈ raw :: operandsIn raw, w.rejected = r.answerable

theorem objects_refuse {α : Type} {reason : Reason} {rejected : Value} {vs : List Violation}
    (h : (refuse field reason rejected : Except Refusal α) = .error (.violations vs))
    (hreason : reason.isWhitelist = false) (hshown : rejected ∈ raw :: operandsIn raw) :
    Objects field raw vs := by
  cases h
  refine ⟨by simp, ?_, ?_, ?_⟩
  all_goals simp only [List.mem_singleton, forall_eq]
  · rfl
  · exact hreason
  · exact ⟨rejected, hshown, rfl⟩

theorem Objects.append {vs ws : List Violation} (hvs : Objects field raw vs)
    (hws : Objects field raw ws) : Objects field raw (vs ++ ws) where
  ne_nil := by simp [hvs.ne_nil]
  field_eq := List.forall_mem_append.2 ⟨hvs.field_eq, hws.field_eq⟩
  kept := List.forall_mem_append.2 ⟨hvs.kept, hws.kept⟩
  shown := List.forall_mem_append.2 ⟨hvs.shown, hws.shown⟩

theorem coerced_objects {member : Value} {vs : List Violation}
    (h : md.coerced field member = .error (.violations vs))
    (hmem : member ∈ raw :: operandsIn raw) : Objects field raw vs := by
  unfold coerced at h
  split at h
  · cases h
  · exact objects_refuse h rfl hmem
  · cases h

/-- The violations of both ends are objections if those of each end are. -/
theorem objects_both {a : Except Refusal Value} {b : Unit → Except Refusal Value}
    {vs : List Violation} (h : both a b = .error (.violations vs))
    (ha : ∀ ws, a = .error (.violations ws) → Objects field raw ws)
    (hb : ∀ ws, b () = .error (.violations ws) → Objects field raw ws) : Objects field raw vs := by
  unfold both at h
  rcases a with (ws | f) | x
  · generalize hend : b () = y at h hb
    rcases y with (ws' | f) | y
    · cases h
      exact (ha ws rfl).append (hb ws' rfl)
    · cases h
    · cases h
      exact ha _ rfl
  · cases h
  · exact hb vs (map_eq_error.1 h)

theorem rangeOperand_objects {vs : List Violation}
    (h : md.rangeOperand field raw = .error (.violations vs)) : Objects field raw vs := by
  unfold rangeOperand at h
  split at h
  · rename_i a b hoperands
    have hend {r : Value} (hr : r ∈ operandsIn raw) (ws : List Violation)
        (hws : md.coerced field r = .error (.violations ws)) : Objects field raw ws :=
      coerced_objects hws (List.mem_cons_of_mem raw hr)
    split at h
    · rename_i e hboth
      cases h
      exact objects_both hboth (hend (by simp [hoperands])) (hend (by simp [hoperands]))
    · split at h
      · cases h
      · cases h
  · exact objects_refuse h rfl List.mem_cons_self

theorem distinctCoerced_objects {values raws : List Value} {vs : List Violation}
    (hraws : ∀ r ∈ raws, r ∈ raw :: operandsIn raw)
    (h : md.distinctCoerced field values raws = .error (.violations vs)) :
    Objects field raw vs := by
  induction raws generalizing values with
  | nil => cases h
  | cons r raws ih =>
    rw [distinctCoerced] at h
    cases hr : md.coerced field r with
    | error e =>
      rw [hr] at h
      cases h
      exact coerced_objects hr (hraws r List.mem_cons_self)
    | ok v =>
      rw [hr] at h
      unfold addDistinct at h
      simp only [bind, Except.bind] at h
      split at h
      · rename_i hadd
        split at hadd
        · cases hadd
          cases h
        · cases hadd
      · exact ih (fun r hr => hraws r (List.mem_cons_of_mem _ hr)) h

theorem listOperand_objects {vs : List Violation}
    (h : md.listOperand field op raw = .error (.violations vs)) : Objects field raw vs := by
  unfold listOperand at h
  split at h
  · exact objects_refuse h rfl List.mem_cons_self
  · exact distinctCoerced_objects (fun r hr => List.mem_cons_of_mem _ hr) (map_eq_error.1 h)

theorem singleOperand_objects {vs : List Violation}
    (h : md.singleOperand field op raw = .error (.violations vs)) : Objects field raw vs := by
  unfold singleOperand at h
  split_ifs at h
  · exact objects_refuse h rfl List.mem_cons_self
  · exact objects_refuse h rfl List.mem_cons_self
  · unfold expressionOperand at h
    split at h
    · cases h
    · exact objects_refuse h rfl List.mem_cons_self
    all_goals cases h
  · exact objects_refuse h rfl List.mem_cons_self
  · exact coerced_objects h List.mem_cons_self

/-- The violations by an operand are objections to it. -/
theorem operand_objects {vs : List Violation}
    (h : md.operand field op raw = .error (.violations vs)) : Objects field raw vs := by
  unfold operand at h
  split_ifs at h
  · exact objects_refuse h rfl List.mem_cons_self
  · exact rangeOperand_objects h
  · exact listOperand_objects h
  · exact singleOperand_objects h

end Metadata

/-! ## Cursors -/

namespace Cursor

/-- A signature cannot be checked if a part of the token goes deeper than calls can, or if a key of
the secret is written, but not as a key. -/
theorem cause_of_unchecked {secret token : List Char} {f : Fault}
    (h : Token.verified secret token = .error (.fault f)) :
    (∃ p, Token.parts? token = some p ∧ (Token.mappingOf p.header = .error (.fault f) ∨
      Token.mappingOf p.claims = .error (.fault f))) ∨
    .error (.fault f) ∈ Token.keys secret := by
  have hpresent {α : Type} {x : Option α} : Token.present x ≠ .error (.fault f) := by
    cases x <;> simp [Token.present]
  obtain hp | ⟨p, hp, h⟩ := bind_eq_error.1 h
  · exact absurd hp hpresent
  replace hp := Token.present_eq_ok.1 hp
  obtain hheader | ⟨header, -, h⟩ := bind_eq_error.1 h
  · exact .inl ⟨p, hp, .inl hheader⟩
  obtain halg | ⟨alg, -, h⟩ := bind_eq_error.1 h
  · exact absurd halg hpresent
  split at h
  · cases h
  obtain hclaims | ⟨_, -, h⟩ := bind_eq_error.1 h
  · exact absurd hclaims hpresent
  obtain hsignature | ⟨bytes, -, h⟩ := bind_eq_error.1 h
  · exact absurd hsignature hpresent
  obtain hkeys | ⟨_, -, hclaims⟩ := bind_eq_error.1 h
  · exact .inr (Token.error_mem_of_fits hkeys)
  · exact .inl ⟨p, hp, .inr hclaims⟩

end Cursor

/-! ## Slices -/

namespace Pagination

theorem ofOffset?_ok_iff {page size : Int} :
    (∃ p, ofOffset? page size = .ok p) ↔ 1 ≤ page ∧ 1 ≤ size := by
  unfold ofOffset?
  split
  · simp only [Except.ok.injEq, exists_eq', true_iff]
    omega
  · simp only [reduceCtorEq, exists_false, false_iff]
    omega

end Pagination

namespace Validator

variable (v : Validator)

/-- The order that a draft asks for, without the criteria that are refused. -/
def acceptedSort (draft : DraftQuery) : List SortCriterion :=
  firstOfEach ((draft.sort.map v.checkSort).filterMap Except.toOption)

variable {v}

theorem checkOffset_ok_iff {draft : DraftPagination} :
    (∃ c, v.checkOffset draft = .ok c) ↔ 1 ≤ (v.checkPageSize draft.pageSize).accepted := by
  have hpage : 1 ≤ max ((checkNonNegative "page" 1 draft.page).accepted.getD 1) 1 :=
    le_max_right _ _
  simp only [checkOffset, bind_pure_ok_iff, Pagination.ofOffset?_ok_iff, hpage, true_and]

theorem checkCriteria_eq_ok {draft : DraftQuery} {c : Checked Criteria}
    (h : v.checkCriteria draft = .ok c) :
    ∃ filters sorts, gather (draft.filters.map v.metadata.checkFilter) = .ok filters ∧
      gather (draft.sort.map v.checkSort) = .ok sorts ∧
      c.violations = filters.violations ++ sorts.violations ++
        (v.checkSearch draft.search).violations ++
        (checkIncludeDeleted draft.includeDeleted).violations ∧
      c.accepted = {
        filters := filters.accepted
        sort := v.acceptedSort draft
        search := (v.checkSearch draft.search).accepted
        includeDeleted := (checkIncludeDeleted draft.includeDeleted).accepted } := by
  obtain ⟨filters, hfilters, h⟩ := bind_eq_ok.1 h
  obtain ⟨sorts, hsorts, h⟩ := bind_eq_ok.1 h
  rw [pure_eq_ok] at h
  subst h
  exact ⟨filters, sorts, hfilters, hsorts, rfl, by rw [acceptedSort, accepted_of_gather hsorts]⟩

/-- The violations of a filter are among those of the criteria. -/
theorem mem_violations_of_checkFilter {draft : DraftQuery} {c : Checked Criteria}
    (h : v.checkCriteria draft = .ok c) {f : DraftFilter} (hf : f ∈ draft.filters)
    {vs : List Violation} (hvs : v.metadata.checkFilter f = .error (.violations vs))
    {w : Violation} (hw : w ∈ vs) : w ∈ c.violations := by
  obtain ⟨filters, sorts, hfilters, -, hviolations, -⟩ := checkCriteria_eq_ok h
  have hmem := (mem_violations_iff hfilters).2 ⟨vs, hvs ▸ List.mem_map_of_mem hf, hw⟩
  simp [hviolations, hmem]

end Validator

namespace Validator

variable {v : Validator}

/-- An expression with a count that is too large for its reader. -/
def countless : Params := [("filter[title][regex]", .text "a\x7b4294967295\x7d")]

end Validator

end RecordQuery
