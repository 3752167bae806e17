import RecordQuery.Proofs.CalendarText
import RecordQuery.Proofs.JsonPieces
import RecordQuery.Proofs.Operands
import RecordQuery.Proofs.Records

/-!
# Operands that a store cannot tell apart

Two operands of one operator on one field that are written alike are the same to a store. They need
not be equal: decimals are written as doubles, and a time loses its offset on its way to the store.

* `Value.Twins`, `Operator.Twins`: values, and operands, that every column takes alike.
* `Metadata.twins_of_written`: suitable operands that are written alike are such operands.
* `Executor.filterPredicate_alike`: filters with such operands select the same rows.
-/

namespace RecordQuery

open RecordQuery.Number RecordQuery.Calendar RecordQuery.Store

/-! ## Operands -/

/-- Values that every column takes alike: equal ones, decimals with the same double, and times with
the same clock. -/
inductive Value.Twins : Value → Value → Prop where
  | same (v : Value) : Twins v v
  | decimals {d d' : Decimal} (h : d.toBinary64? = d'.toBinary64?) :
    Twins (.decimal d) (.decimal d')
  | times {t t' : DateTime} (hdate : t.date = t'.date) (htime : t.time = t'.time) :
    Twins (.datetime t) (.datetime t')

/-- Operands of the operator that every column takes alike. -/
def Operator.Twins (op : Operator) (v w : Value) : Prop :=
  match op with
  | .isIn | .notIn | .between =>
    ∃ vs ws, v = .tuple vs ∧ w = .tuple ws ∧ List.Forall₂ Value.Twins vs ws
  | _ => Value.Twins v w

/-- Two values that stand alike in a cache key: they are serialized, with their keys in order, to
the same text. -/
def Value.WrittenAlike (v w : Value) : Prop :=
  ∃ sv sw, v.serialized = .ok sv ∧ w.serialized = .ok sw ∧ Json.canonical sv = Json.canonical sw

theorem Value.serializedList_eq (vs : List Value) : serializedList vs = vs.mapM serialized := by
  induction vs with
  | nil => rfl
  | cons v vs ih => rw [serializedList, ih, List.mapM_cons]

theorem Uuid.text_injective {u u' : Uuid} (h : u.text = u'.text) : u = u' := by
  have hread := Uuid.read?_chars u
  have hchars : u.chars = u'.chars := String.ofList_injective h
  rw [hchars, Uuid.read?_chars, Option.some.injEq] at hread
  exact hread.symm

theorem Number.Decimal.isDouble_toBinary64? {d : Decimal} {x : Binary64}
    (h : d.toBinary64? = some x) : x.IsDouble := by
  cases d with
  | finite negative coefficient exponent =>
    cases h
    exact Binary64.isDouble_ofScientific _
  | infinity negative =>
    cases h
    trivial
  | nan negative signaling payload =>
    cases signaling with
    | false =>
      cases h
      trivial
    | true => cases h

theorem Value.serialized_decimal {d : Decimal} {v : Value}
    (h : serialized (.decimal d) = .ok v) : ∃ x, d.toBinary64? = some x ∧ v = .float x := by
  unfold serialized at h
  split at h
  · rename_i x hx
    cases h
    exact ⟨x, hx, rfl⟩
  · cases h

/-- Values of one kind that are written alike are twins. -/
theorem Kind.twins_of_written {kind : Kind} {v w : Value} (hv : kind.Holds v) (hw : kind.Holds w)
    (h : v.WrittenAlike w) : v.Twins w := by
  obtain ⟨sv, sw, hsv, hsw, h⟩ := h
  cases hv with
  | boolean b =>
    cases hw
    cases hsv
    cases hsw
    rw [Json.canonical_bool h]
    exact .same _
  | integer n =>
    cases hw
    cases hsv
    cases hsw
    rw [Json.canonical_int h]
    exact .same _
  | float hx =>
    cases hw with
    | float hy =>
      cases hsv
      cases hsw
      rw [Json.canonical_float hx hy h]
      exact .same _
  | decimal d =>
    cases hw with
    | decimal d' =>
      obtain ⟨x, hx, rfl⟩ := Value.serialized_decimal hsv
      obtain ⟨y, hy, rfl⟩ := Value.serialized_decimal hsw
      have hsame := Json.canonical_float (Decimal.isDouble_toBinary64? hx)
        (Decimal.isDouble_toBinary64? hy) h
      exact .decimals (by rw [hx, hy, hsame])
  | date d =>
    cases hw with
    | date d' =>
      cases hsv
      cases hsw
      have hchars : d.chars = d'.chars := String.ofList_injective (Json.canonical_text h)
      rw [Date.chars_injective hchars]
      exact .same _
  | datetime t =>
    cases hw
    cases hsv
    cases hsw
    obtain ⟨hdate, htime⟩ := DateTime.clock_of_text (Json.canonical_text h)
    exact .times hdate htime
  | uuid u =>
    cases hw
    cases hsv
    cases hsw
    rw [Uuid.text_injective (Json.canonical_text h)]
    exact .same _
  | enum s | text s | json s =>
    cases hw
    cases hsv
    cases hsw
    rw [Json.canonical_text h]
    exact .same _

/-- So are the values of two lists, one by one. -/
theorem Kind.twins_of_written_list {kind : Kind} {vs ws : List Value}
    (hvs : ∀ v ∈ vs, kind.Holds v) (hws : ∀ w ∈ ws, kind.Holds w)
    (h : (Value.tuple vs).WrittenAlike (.tuple ws)) : List.Forall₂ Value.Twins vs ws := by
  obtain ⟨_, _, hsv, hsw, h⟩ := h
  rw [Value.serialized, Value.serializedList_eq] at hsv hsw
  obtain ⟨svs, hsvs, rfl⟩ := map_eq_ok.1 hsv
  obtain ⟨sws, hsws, rfl⟩ := map_eq_ok.1 hsw
  have hwritten : List.Forall₂ Value.WrittenAlike vs ws :=
    forall₂_of_map_eq (mapM_eq_ok.1 hsvs) (mapM_eq_ok.1 hsws) (Json.canonical_list h)
  clear hsv hsw hsvs hsws h
  induction hwritten with
  | nil => exact .nil
  | @cons v w vs ws hvw _ ih =>
    obtain ⟨hv, hvs⟩ := List.forall_mem_cons.1 hvs
    obtain ⟨hw, hws⟩ := List.forall_mem_cons.1 hws
    exact .cons (kind.twins_of_written hv hw hvw) (ih hvs hws)

/-- Suitable operands of an operator on a field that are written alike are twins. -/
theorem Metadata.twins_of_written {md : Metadata} {field : String} {op : Operator} {v w : Value}
    (hop : op ≠ .custom) (hv : md.Suits field op v) (hw : md.Suits field op w)
    (h : v.WrittenAlike w) : op.Twins v w := by
  cases op with
  | custom => exact absurd rfl hop
  | isNull | isNotNull =>
    obtain rfl : v = .null := hv
    obtain rfl : w = .null := hw
    exact .same _
  | isIn | notIn | between =>
    obtain ⟨vs, rfl, hvs⟩ := hv
    obtain ⟨ws, rfl, hws⟩ := hw
    exact ⟨vs, ws, rfl, rfl, Kind.twins_of_written_list hvs hws h⟩
  | contains | startsWith | endsWith | regex =>
    obtain ⟨s, rfl⟩ := hv
    obtain ⟨s', rfl⟩ := hw
    obtain ⟨_, _, hsv, hsw, h⟩ := h
    cases hsv
    cases hsw
    rw [Json.canonical_text h]
    exact .same _
  | equals | notEquals | gt | gte | lt | lte => exact Kind.twins_of_written hv hw h

/-! ## Conditions -/

namespace Store

variable {t : Table} {column : String} {v w : Value}

theorem ColumnType.bind?_twins (h : v.Twins w) (type : ColumnType) :
    type.bind? v = type.bind? w := by
  cases h with
  | same => rfl
  | decimals h => simp only [bind?, h]
  | times hdate htime => simp only [bind?, momentText, hdate, htime]

theorem Table.operand?_twins (h : v.Twins w) : t.operand? column v = t.operand? column w := by
  unfold operand?
  cases t.type? column with
  | none => rfl
  | some type => simp only [ColumnType.bind?_twins h]

/-- Two conditions that the table decides in the same form, or two failures. -/
def Table.SameForm (t : Table) (a b : Except Fault Predicate) : Prop :=
  a.map t.condition? = b.map t.condition?

namespace Predicate

theorem alike_equal (h : v.Twins w) :
    t.condition? (equal column v) = t.condition? (equal column w) := by
  cases h with
  | same => rfl
  | decimals h => simp only [equal, Table.condition?, Table.operand?_twins (.decimals h)]
  | times hdate htime =>
    simp only [equal, Table.condition?, Table.operand?_twins (.times hdate htime)]

theorem alike_unequal (h : v.Twins w) :
    t.condition? (unequal column v) = t.condition? (unequal column w) := by
  cases h with
  | same => rfl
  | decimals h => simp only [unequal, Table.condition?, Table.operand?_twins (.decimals h)]
  | times hdate htime =>
    simp only [unequal, Table.condition?, Table.operand?_twins (.times hdate htime)]

theorem alike_ordered (h : v.Twins w) (op : Comparison) :
    t.SameForm (ordered op column v) (ordered op column w) := by
  cases h with
  | same => rfl
  | decimals h =>
    simp only [Table.SameForm, ordered, Except.map, Table.condition?,
      Table.operand?_twins (.decimals h)]
  | times hdate htime =>
    simp only [Table.SameForm, ordered, Except.map, Table.condition?,
      Table.operand?_twins (.times hdate htime)]

theorem mapM_operand?_twins {vs ws : List Value} (h : List.Forall₂ Value.Twins vs ws) :
    vs.mapM (t.operand? column) = ws.mapM (t.operand? column) := by
  induction h with
  | nil => rfl
  | cons hhead _ ih => rw [List.mapM_cons, List.mapM_cons, Table.operand?_twins hhead, ih]

theorem alike_member {vs ws : List Value} (h : List.Forall₂ Value.Twins vs ws) (negated : Bool) :
    t.condition? (member negated column vs) = t.condition? (member negated column ws) := by
  simp only [Table.condition?, mapM_operand?_twins h]

/-- Filters that differ in twin operands only have the same condition. -/
theorem alike_criterion? {c c' : FilterCriterion} (hop : c.operator = c'.operator)
    (hcase : c.caseSensitive = c'.caseSensitive) (h : c.operator.Twins c.value c'.value) :
    t.SameForm (criterion? column c) (criterion? column c') := by
  obtain ⟨field, op, v, type, case⟩ := c
  obtain ⟨field', op', w, type', case'⟩ := c'
  obtain rfl : op = op' := hop
  obtain rfl : case = case' := hcase
  unfold Table.SameForm criterion?
  cases op with
  | equals => exact congrArg Except.ok (alike_equal h)
  | notEquals => exact congrArg Except.ok (alike_unequal h)
  | gt | gte | lt | lte => exact alike_ordered h _
  | isIn | notIn =>
    obtain ⟨vs, ws, rfl, rfl, htwins⟩ := h
    exact congrArg Except.ok (alike_member htwins _)
  | between =>
    obtain ⟨vs, ws, rfl, rfl, htwins⟩ := h
    cases htwins with
    | nil => rfl
    | cons hlow hrest =>
      cases hrest with
      | nil => rfl
      | cons hhigh hrest =>
        cases hrest with
        | nil =>
          refine congrArg Except.ok ?_
          simp only [Table.condition?, Table.operand?_twins hlow, Table.operand?_twins hhigh]
        | cons => rfl
  | isNull | isNotNull | custom => rfl
  | regex =>
    cases h with
    | same => rfl
    | decimals h =>
      refine congrArg Except.ok ?_
      simp only [Table.condition?, Table.operand?_twins (.decimals h)]
      rfl
    | times hdate htime =>
      refine congrArg Except.ok ?_
      simp only [Table.condition?, Table.operand?_twins (.times hdate htime)]
      rfl
  | contains | startsWith | endsWith => cases h <;> rfl

end Predicate
end Store

/-! ## Filters -/

/-- A custom filter of the model cannot tell apart what a cache key cannot tell apart. -/
def Metadata.ReadsTexts (md : Metadata) : Prop :=
  ∀ field filter, md.customFilter? field = some filter → ∀ column (v w : Value),
    v.WrittenAlike w → filter column v = filter column w

/-- Two filters on one field by one operator, with operands that are written alike. -/
structure FilterCriterion.WrittenAlike (c c' : FilterCriterion) : Prop where
  field : c.field = c'.field
  operator : c.operator = c'.operator
  value : c.value.WrittenAlike c'.value

namespace Executor

variable {x : Executor} {t : Table} {c c' : FilterCriterion}

/-- Checked filters that are written alike select the same rows. -/
theorem filterPredicate_alike (hcustom : x.metadata.ReadsTexts) (hc : x.metadata.Checks c)
    (hc' : x.metadata.Checks c') (h : c.WrittenAlike c') :
    t.SameForm (x.filterPredicate c) (x.filterPredicate c') := by
  unfold filterPredicate
  rw [← h.field, ← h.operator]
  cases hcolumn : x.metadata.column? c.field with
  | error f => rfl
  | ok column =>
    by_cases hop : c.operator = .custom
    · simp only [hop, if_true, bind, Except.bind]
      cases hfilter : x.metadata.customFilter? c.field with
      | none => rfl
      | some filter =>
        simp only [hcustom c.field filter hfilter column _ _ h.value]
        rfl
    · simp only [hop, if_false, bind, Except.bind]
      have hsuits := hc'.suits
      rw [← h.field, ← h.operator] at hsuits
      refine Predicate.alike_criterion? h.operator ?_
        (Metadata.twins_of_written hop hc.suits hsuits h.value)
      rw [hc.case_eq, hc'.case_eq, h.field]

/-- The conditions of lists of such filters. -/
theorem filterPredicates_alike (hcustom : x.metadata.ReadsTexts) {cs cs' : List FilterCriterion}
    (hcs : ∀ c ∈ cs, x.metadata.Checks c) (hcs' : ∀ c ∈ cs', x.metadata.Checks c)
    (h : List.Forall₂ FilterCriterion.WrittenAlike cs cs') {ps ps' : List Predicate}
    (hps : cs.mapM x.filterPredicate = .ok ps) (hps' : cs'.mapM x.filterPredicate = .ok ps') :
    ps.mapM t.condition? = ps'.mapM t.condition? := by
  rw [mapM_eq_ok] at hps hps'
  induction h generalizing ps ps' with
  | nil =>
    cases hps
    cases hps'
    rfl
  | @cons c c' cs cs' hhead _ ih =>
    cases hps with
    | @cons _ p _ ps hp hps =>
      cases hps' with
      | @cons _ p' _ ps' hp' hps' =>
        have halike : t.SameForm (x.filterPredicate c) (x.filterPredicate c') :=
          filterPredicate_alike hcustom (hcs c List.mem_cons_self) (hcs' c' List.mem_cons_self)
            hhead
        rw [hp, hp'] at halike
        have hcondition : t.condition? p = t.condition? p' := Except.ok.inj halike
        rw [List.mapM_cons, List.mapM_cons, hcondition,
          ih (fun d hd => hcs d (List.mem_cons_of_mem c hd))
            (fun d hd => hcs' d (List.mem_cons_of_mem c' hd)) hps hps']

end Executor
end RecordQuery
