import RecordQuery.Proofs.Literals
import RecordQuery.Request.Grammar

/-!
# Reading drafts

A request is read, or refused as malformed. Only a grid's request can end otherwise: its JSON may go
deeper than calls can, and the reader of a row window takes the values of a set for a collection and
the index of a criterion for a numeral without asking.

* `DraftQuery.items` lists what the reader of a request takes up, in its order.
* `DraftQuery.failure_read`: the first item that fails decides the error.
* `DraftQuery.reads_or_malformed_iff`: which requests are read or refused as malformed.
* `Json.load_replicate`: brackets alone are enough to go too deep.
-/

namespace RecordQuery

/-! ## Errors of composed computations -/

section Failure

variable {ε α β : Type}

/-- The error of a computation that ends with one. -/
def failure : Except ε α → Option ε
  | .error e => some e
  | .ok _ => none

theorem failure_map (x : Except ε α) (f : α → β) : failure (x.map f) = failure x := by
  cases x <;> rfl

theorem failure_append (x y : Except ε (List α)) :
    failure (do return (← x) ++ (← y)) = (failure x).or (failure y) := by
  cases x with
  | error e => rfl
  | ok a => cases y <;> rfl

end Failure

/-! ## Digits that make no numeral -/

namespace Text

/-- Where the digits of all scripts lie. -/
def digitRanges : List (Nat × Nat) :=
  (0x30, 0x39) :: (scriptZeros.map fun z => (z, z + 9)) ++ typographicDigits

theorem inRanges_digitRanges {c : Char} (h : isDigit c = true) : inRanges digitRanges c = true := by
  rw [inRanges_iff]
  rcases Bool.or_eq_true_iff.1 h with hdecimal | htypographic
  · simp only [isDecimal, decimalValue?] at hdecimal
    split at hdecimal
    · rename_i hascii
      exact ⟨(0x30, 0x39), by simp [digitRanges], hascii⟩
    · split at hdecimal
      · cases hdecimal
      · rw [Option.isSome_map] at hdecimal
        obtain ⟨z, hz⟩ := Option.isSome_iff_exists.1 hdecimal
        have hmem := List.mem_of_find?_eq_some hz
        have hin := List.find?_some hz
        simp only [Bool.and_eq_true, decide_eq_true_eq] at hin
        refine ⟨(z, z + 9), ?_, hin.1, by omega⟩
        exact List.mem_cons_of_mem _ (List.mem_append_left _ (List.mem_map.2 ⟨z, hmem, rfl⟩))
  · obtain ⟨r, hr, hin⟩ := inRanges_iff.1 htypographic
    exact ⟨r, List.mem_cons_of_mem _ (List.mem_append_right _ hr), hin⟩

/-- A digit lies in no class of characters whose ranges are apart from those of digits. -/
theorem not_inRanges_of_isDigit {ranges : List (Nat × Nat)}
    (apart : ∀ r ∈ digitRanges, ∀ s ∈ ranges, r.2 < s.1 ∨ s.2 < r.1) {c : Char}
    (h : isDigit c = true) : inRanges ranges c = false := by
  rw [Bool.eq_false_iff]
  intro hin
  obtain ⟨r, hr, hcr⟩ := inRanges_iff.1 (inRanges_digitRanges h)
  obtain ⟨s, hs, hcs⟩ := inRanges_iff.1 hin
  have := apart r hr s hs
  omega

theorem isBlank_of_isDigit {c : Char} (h : isDigit c = true) : isBlank c = false :=
  not_inRanges_of_isDigit (by decide) h

end Text

namespace Number

open RecordQuery.Text

variable {cs : List Char}

theorem stripAround_digits (h : ∀ c ∈ cs, isDigit c = true) : stripAround cs = cs := by
  unfold stripAround
  split
  · refine stripChars_of_forall fun c hc => ?_
    have hblank := isBlank_of_isDigit (h c hc)
    rw [Bool.eq_false_iff] at hblank ⊢
    refine fun hspace => hblank (inRanges_iff.2 ?_)
    simp only [Bool.or_eq_true, beq_iff_eq, Bool.and_eq_true, decide_eq_true_eq] at hspace
    rcases hspace with rfl | hline
    · exact ⟨(0x1C, 0x20), by decide, by decide⟩
    · exact ⟨(0x09, 0x0D), by decide, hline⟩
  · exact stripChars_of_forall fun c hc => isBlank_of_isDigit (h c hc)

theorem isDigit_digitChar {d : Nat} (h : d < 10) : isDigit (digitChar d) = true := by
  have : ∀ d : Fin 10, isDigit (digitChar d) = true := by decide
  exact this ⟨d, h⟩

/-- A decimal digit of any script as one of ASCII. -/
def asciiDigit (c : Char) : Char :=
  match decimalValue? c with
  | some v => digitChar v
  | none => c

theorem asciiDigits_eq (cs : List Char) : asciiDigits cs = cs.map asciiDigit := rfl

theorem isDigit_asciiDigit {c : Char} (h : isDigit c = true) : isDigit (asciiDigit c) = true := by
  unfold asciiDigit
  split
  · rename_i v hv
    exact isDigit_digitChar (decimalValue?_lt hv)
  · exact h

theorem digitValue?_asciiDigit (c : Char) :
    (digitValue? (asciiDigit c)).isSome = isDecimal c := by
  unfold asciiDigit isDecimal
  split
  · rename_i v hv
    rw [digitValue?_digitChar (decimalValue?_lt hv), hv]
  · rename_i hnone
    rw [hnone, Option.isSome_none, ← isAsciiDigit, Bool.eq_false_iff]
    intro hascii
    have := isAsciiDigit_iff.1 hascii
    simp [decimalValue?, this.1, this.2] at hnone

theorem isDigit_of_mem_asciiDigits (h : ∀ c ∈ cs, isDigit c = true) {d : Char}
    (hd : d ∈ asciiDigits cs) : isDigit d = true := by
  obtain ⟨c, hc, rfl⟩ := List.mem_map.1 hd
  exact isDigit_asciiDigit (h c hc)

theorem ungroupFrom_digits (h : ∀ c ∈ cs, isDigit c = true) {prev : Char} (hprev : prev ≠ '_') :
    ungroupFrom prev cs = some cs := by
  induction cs generalizing prev with
  | nil => simp [ungroupFrom, hprev]
  | cons c cs ih =>
    have hc : c ≠ '_' := by
      rintro rfl
      exact absurd (h _ List.mem_cons_self) (by decide)
    rw [ungroupFrom, if_neg hc, if_neg (by simp [hprev]),
      ih (fun d hd => h d (List.mem_cons_of_mem _ hd)) hc]
    rfl

theorem splitSign_digits (h : ∀ c ∈ cs, isDigit c = true) : splitSign cs = (false, cs) := by
  unfold splitSign
  split
  · exact absurd (h _ List.mem_cons_self) (by decide)
  · exact absurd (h _ List.mem_cons_self) (by decide)
  · rfl

theorem digitsFrom_eq_none {acc : Nat} :
    digitsFrom acc cs = none ↔ ∃ c ∈ cs, digitValue? c = none := by
  induction cs generalizing acc with
  | nil => simp [digitsFrom]
  | cons c cs ih =>
    simp only [digitsFrom, List.mem_cons, exists_eq_or_imp]
    cases hc : digitValue? c with
    | none => simp
    | some v => simp [ih]

/-- Digits are no numeral if there are too many, or if one of them is not decimal. -/
theorem readInt_digits_eq_none (hne : cs ≠ []) (h : ∀ c ∈ cs, isDigit c = true) :
    readInt cs = none ↔ maxDigits < cs.length ∨ ∃ c ∈ cs, isDecimal c = false := by
  have hascii := fun d hd => isDigit_of_mem_asciiDigits (d := d) h hd
  have hlength : (asciiDigits cs).length = cs.length := List.length_map _
  have hnil : (asciiDigits cs).isEmpty = false := by
    rw [List.isEmpty_eq_false_iff]
    exact fun hnil => hne (List.map_eq_nil_iff.1 hnil)
  have hread : readNat (asciiDigits cs) = none ↔ ∃ c ∈ cs, isDecimal c = false := by
    rw [readNat, hnil, if_neg Bool.false_ne_true, digitsFrom_eq_none, asciiDigits_eq]
    simp only [List.mem_map, exists_exists_and_eq_and, ← digitValue?_asciiDigit,
      Option.isSome_eq_false_iff, Option.isNone_iff_eq_none]
  rw [readInt, stripAround_digits h, ungroup, ungroupFrom_digits hascii (by decide),
    Option.bind_eq_bind, Option.bind_some, splitSign_digits hascii]
  simp only [hlength, gt_iff_lt]
  split
  · simp [*]
  · rename_i hle
    rw [← hread]
    cases readNat (asciiDigits cs) <;> simp [hle]

end Number

/-! ## What readers take up -/

namespace GridModel

/-- One thing that the reader of a grid's request takes up. -/
inductive Item where
  /-- An object of a column or of a group that is no group itself. -/
  | condition (spec : Entries)
  /-- An entry of the order that is written with keys. -/
  | criterion (index : String) (spec : Entries)
  /-- A parameter whose JSON goes deeper than calls can. -/
  | deep (name : String)
  | malformed (cause : Malformed)

namespace Item

/-- The values of a set are there, but they are no collection. -/
def LacksMembers (spec : Entries) : Prop :=
  RowWindow.isSet spec = true ∧ (entry spec "values").isTruthy = true ∧
    (entry spec "values").members? = none

/-- The index of a criterion has digits only, but is no numeral. -/
def LacksIndex (index : String) (spec : Entries) : Prop :=
  index ≠ "" ∧ index.toList.all Text.isDigit = true ∧
    fieldName (Params.last (entry spec "colId")) ≠ "" ∧
    (Number.maxDigits < index.toList.length ∨ ∃ c ∈ index.toList, Text.isDecimal c = false)

instance (spec : Entries) : Decidable (LacksMembers spec) :=
  decidable_of_iff (RowWindow.isSet spec = true ∧ (entry spec "values").isTruthy = true ∧
    (entry spec "values").members?.isNone = true) (by simp [LacksMembers])

instance (index : String) (spec : Entries) : Decidable (LacksIndex index spec) :=
  decidable_of_iff (index ≠ "" ∧ index.toList.all Text.isDigit = true ∧
    fieldName (Params.last (entry spec "colId")) ≠ "" ∧
    (Number.maxDigits < index.toList.length ∨ index.toList.all Text.isDecimal = false))
    (by simp [LacksIndex])

/-- The error with which the reader ends at an item. -/
def error? : Item → Option ParseError
  | condition spec => if LacksMembers spec then some (.fault .unsuitable) else none
  | criterion index spec => if LacksIndex index spec then some (.fault .unreadable) else none
  | deep _ => some (.fault .tooLarge)
  | malformed cause => some (.malformed cause)

/-- The reader ends at the item, but not because the request is malformed. -/
def Faults : Item → Prop
  | condition spec => LacksMembers spec
  | criterion index spec => LacksIndex index spec
  | deep _ => True
  | malformed _ => False

end Item

/-- The error of the first item that has one. -/
def firstError (items : List Item) : Option ParseError := items.findSome? Item.error?

theorem firstError_append (items items' : List Item) :
    firstError (items ++ items') = (firstError items).or (firstError items') :=
  List.findSome?_append

/-- What is taken up of a parameter of JSON, by what its value is. -/
def loadedItems (params : Params) (name : String) (items : Value → List Item) : List Item :=
  match load params name with
  | .ok v => items v
  | .error (.malformed cause) => [.malformed cause]
  | .error (.fault _) => [.deep name]

def filterModelItems (params : Params) (items : Entries → List Item) : List Item :=
  loadedItems params "filterModel" fun v =>
    match v with
    | .null => items []
    | .mapping model => items model
    | _ => [.malformed .filterModelNotObject]

def sortModelItems (params : Params) : List Item :=
  loadedItems params "sortModel" fun v =>
    match v with
    | .null => []
    | .list criteria => criteria.flatMap fun v =>
      if v.entries?.isNone then [.malformed .sortEntryNotObject] else []
    | _ => [.malformed .sortModelNotArray]

end GridModel

/-! ## Row windows -/

namespace RowWindow

open GridModel

mutual

/-- The conditions of a column, those of a group in their order. -/
def columnItems (field : String) : Value → List Item
  | .mapping spec =>
    match groupItems? field spec with
    | some (count, items) =>
      if joins spec count then items else [.malformed (.alternatives field)]
    | none => [.condition spec]
  | _ => [.malformed .conditionNotObject]

def groupItems? (field : String) : Entries → Option (Nat × List Item)
  | [] => none
  | (key, v) :: rest =>
    if key = "conditions" then
      match v with
      | .list members => some (members.length, allItems field members)
      | _ => none
    else groupItems? field rest

def allItems (field : String) : List Value → List Item
  | [] => []
  | v :: rest => columnItems field v ++ allItems field rest

end

def modelItems (model : Entries) : List Item :=
  model.flatMap fun e =>
    let field := fieldName (.text e.1)
    if field = "" then []
    else if e.2.entries?.isNone then [.malformed (.columnNotObject field)]
    else columnItems field e.2

def flatFilterItems (tree : Entries) : List Item :=
  tree.flatMap fun e =>
    match e.2 with
    | .mapping spec =>
      let field := fieldName (.text e.1)
      if field = "" ∨ isUnfinished (lastEntries spec) then []
      else columnItems field (.mapping (lastEntries spec))
    | _ => []

def flatSortItems (tree : Entries) : List Item :=
  tree.flatMap fun e =>
    match e.2 with
    | .mapping spec => [.criterion e.1 spec]
    | _ => []

/-- All that the reader of a row window takes up, in its order. -/
def items (params : Params) : List Item :=
  filterModelItems params modelItems ++ flatFilterItems (params.tree "filters") ++
    (sortModelItems params ++ flatSortItems (params.tree "sort"))

/-! ## The first item that fails decides the error -/

theorem failure_setValues {spec : Entries} (hset : isSet spec = true) :
    failure (setValues spec) = Item.error? (.condition spec) := by
  unfold setValues Value.orElse
  rw [Item.error?]
  by_cases htruthy : (entry spec "values").isTruthy = true
  · rw [if_pos htruthy]
    cases hmembers : (entry spec "values").members? with
    | none => rw [if_pos ⟨hset, htruthy, hmembers⟩]; rfl
    | some members => rw [if_neg fun h => by simp [h.2.2] at hmembers]; rfl
  · rw [if_neg htruthy, if_neg fun h => htruthy h.2.1]
    rfl

theorem failure_plainFilter (field : String) (spec : Entries) :
    failure (plainFilter field spec) = Item.error? (.condition spec) := by
  unfold plainFilter
  by_cases hset : isSet spec = true
  · rw [if_pos hset, failure_map, failure_setValues hset]
  · rw [if_neg hset, Item.error?, if_neg fun h => hset h.1]
    rfl

mutual

theorem failure_columnFilters (field : String) :
    ∀ v, failure (columnFilters field v) = firstError (columnItems field v)
  | .mapping spec => by
    have ih := failure_conditions? field spec
    rw [columnFilters, columnItems]
    cases hfilters : conditions? field spec with
    | none =>
      rw [hfilters, Option.map_none, eq_comm, Option.map_eq_none_iff] at ih
      simp only [ih]
      rw [failure_map, failure_plainFilter]
      simp [firstError]
    | some group =>
      rw [hfilters, Option.map_some, eq_comm, Option.map_eq_some_iff] at ih
      obtain ⟨group', hitems, heq⟩ := ih
      rw [Prod.mk.injEq] at heq
      simp only [hitems, heq.1]
      by_cases hjoins : joins spec group.1 = true
      · rw [if_pos hjoins, if_pos hjoins, heq.2]
      · rw [if_neg hjoins, if_neg hjoins]
        rfl
  | .null | .bool _ | .int _ | .float _ | .decimal _ | .date _ | .datetime _ | .uuid _ | .text _
  | .list _ | .tuple _ => rfl

theorem failure_conditions? (field : String) :
    ∀ spec, (conditions? field spec).map (fun group => (group.1, failure group.2)) =
      (groupItems? field spec).map fun group => (group.1, firstError group.2)
  | [] => rfl
  | (key, v) :: rest => by
    unfold conditions? groupItems?
    by_cases hkey : key = "conditions"
    · rw [if_pos hkey, if_pos hkey]
      cases v with
      | list members => exact congrArg some (congrArg _ (failure_allFilters field members))
      | _ => rfl
    · rw [if_neg hkey, if_neg hkey]
      exact failure_conditions? field rest

theorem failure_allFilters (field : String) :
    ∀ members, failure (allFilters field members) = firstError (allItems field members)
  | [] => rfl
  | v :: rest => by
    rw [allFilters, allItems, failure_append, firstError_append, failure_columnFilters field v,
      failure_allFilters field rest]

end

end RowWindow

/-! ## Data tables -/

namespace DataTable

open GridModel

/-- The items of a filter model that has any; without them, its entries are filters as they are. -/
def modelItems (model : Entries) : List Item :=
  match entry model "items" with
  | .list members =>
    if joins model members.length then members.flatMap fun v =>
      if v.entries?.isNone then [.malformed .itemNotObject] else []
    else [.malformed .itemAlternatives]
  | _ => []

/-- All that the reader of a data table takes up, in its order. -/
def items (params : Params) : List Item :=
  filterModelItems params modelItems ++ sortModelItems params

end DataTable

/-! ## Drafts -/

namespace DraftQuery

open GridModel (Item firstError)

/-- All that the reader of a request takes up, in its order. The simple grammar takes everything as
it comes. -/
def items (params : Params) : List Item :=
  match Grammar.of params with
  | .rowWindow => RowWindow.items params
  | .dataTable => DataTable.items params
  | .simple => []

/-- The superscript two is a digit, but no numeral. -/
example : failure (read [("startRow", .text "0"), ("sort[²][colId]", .text "title")]) =
    some (.fault .unreadable) := by
  decide +kernel

/-- The values of a set have to be a collection. -/
example : failure (read [("startRow", .text "0"), ("filterModel", .text
    "\x7b\"title\": \x7b\"filterType\": \"set\", \"values\": 5\x7d\x7d")]) =
    some (.fault .unsuitable) := by
  decide +kernel

end DraftQuery

/-! ## Brackets -/

namespace Json

/-- One bracket more than there is room for goes too deep, whatever comes after it. -/
theorem value_brackets (number : List Char → Option (Value × List Char)) {room fuel : Nat}
    (hfuel : 2 * room < fuel) (more : Nat) :
    value number room fuel ('[' :: List.replicate (room + more) '[') = .error .tooDeep := by
  induction room generalizing fuel with
  | zero =>
    obtain ⟨fuel, rfl⟩ : ∃ f, fuel = f + 1 := ⟨fuel - 1, by omega⟩
    simp only [value]
  | succ room ih =>
    -- a unit for the value and one for its first item
    obtain ⟨fuel, rfl⟩ : ∃ f, fuel = f + 2 := ⟨fuel - 2, by omega⟩
    have hinside := ih (show 2 * room < fuel by omega)
    have hskip (cs : List Char) : skipSpace ('[' :: cs) = '[' :: cs := rfl
    rw [Nat.add_right_comm, List.replicate_succ]
    simp only [value, items, hskip]
    split
    · rename_i hclosed
      exact absurd (List.cons.inj hclosed).1 (by decide)
    · rw [hskip, hinside]
      rfl

/-- So brackets alone are not read as JSON. -/
theorem load_replicate {n : Nat} (h : callRoom < n) :
    load (List.replicate n '[') = .error .tooDeep := by
  obtain ⟨more, rfl⟩ : ∃ more, n = callRoom + more + 1 := ⟨n - (callRoom + 1), by omega⟩
  have hfuel : 2 * callRoom < 2 * (callRoom + more + 1) + 2 := by omega
  have hvalue := value_brackets number? hfuel more
  rw [List.replicate_succ, load, readWith, List.length_cons, List.length_replicate]
  exact congrArg (· >>= _) hvalue

end Json
end RecordQuery
