import RecordQuery.Proofs.Executions
import RecordQuery.Proofs.Overflow
import RecordQuery.Proofs.Pages
import RecordQuery.Response.Render

/-!
# Encodable answers

JSON has no form for numbers that are not finite. The records of a table of finite numbers have
none, and what an answer says about its slice has none; only the operands that it repeats can have.

* `Value.Displays`: a value stands in an answer without such a number.
* `Table.Finite`: the numbers in a table are finite.
* `Executor.visibleRecord_encodable`: so are those in its records.
* `Format.render_encodable_iff`: an answer is encodable just if the filters are that it shows.
-/

namespace RecordQuery

open RecordQuery.Store RecordQuery.Number RecordQuery.Calendar

namespace Json

theorem isEncodableList_iff {vs : List Value} :
    isEncodableList vs = true ↔ ∀ v ∈ vs, isEncodable v = true := by
  induction vs with
  | nil => simp [isEncodableList]
  | cons v vs ih => simp [isEncodableList, ih]

theorem isEncodableEntries_iff {es : Entries} :
    isEncodableEntries es = true ↔ ∀ e ∈ es, isEncodable e.2 = true := by
  induction es with
  | nil => simp [isEncodableEntries]
  | cons e es ih => simp [isEncodableEntries, ih]

theorem isEncodableEntries_append (es es' : Entries) :
    isEncodableEntries (es ++ es') = (isEncodableEntries es && isEncodableEntries es') := by
  rw [Bool.eq_iff_iff]
  simp [isEncodableEntries_iff, or_imp, forall_and]

@[simp] theorem isEncodableList_texts (names : List String) :
    isEncodableList (names.map .text) = true := by
  simp [isEncodable, isEncodableList_iff]

end Json

/-! ## Operands in answers -/

namespace Value

mutual

/-- The numbers in the value are finite as an answer holds them. -/
def Displays : Value → Prop
  | .float x => x.isFinite = true
  | .decimal d => ∀ x, d.toBinary64? = some x → x.isFinite = true
  | .list items => DisplaysList items
  | .tuple items => DisplaysList items
  | .mapping entries => DisplaysEntries entries
  | _ => True

def DisplaysList : List Value → Prop
  | [] => True
  | v :: rest => Displays v ∧ DisplaysList rest

def DisplaysEntries : Entries → Prop
  | [] => True
  | (_, v) :: rest => Displays v ∧ DisplaysEntries rest

end

mutual

theorem isEncodable_serialized_iff : ∀ {v w : Value}, v.serialized = .ok w →
    (Json.isEncodable w = true ↔ v.Displays)
  | .null, _, h | .bool _, _, h | .int _, _, h | .date _, _, h | .datetime _, _, h | .uuid _, _, h
  | .text _, _, h | .float _, _, h => by
    cases h
    simp [Json.isEncodable, Displays]
  | .decimal d, _, h => by
    unfold serialized at h
    split at h
    · rename_i x hx
      cases h
      simp [Json.isEncodable, Displays, hx]
    · cases h
  | .list items, _, h | .tuple items, _, h => by
    obtain ⟨ws, hws, rfl⟩ := map_eq_ok.1 h
    exact isEncodableList_serialized_iff hws
  | .mapping entries, _, h => by
    obtain ⟨ws, hws, rfl⟩ := map_eq_ok.1 h
    exact isEncodableEntries_serialized_iff hws

theorem isEncodableList_serialized_iff : ∀ {vs ws : List Value}, serializedList vs = .ok ws →
    (Json.isEncodableList ws = true ↔ DisplaysList vs)
  | [], _, h => by
    cases h
    simp [Json.isEncodableList, DisplaysList]
  | v :: vs, _, h => by
    obtain ⟨w, hw, h⟩ := bind_eq_ok.1 h
    obtain ⟨ws, hws, h⟩ := bind_eq_ok.1 h
    cases h
    rw [Json.isEncodableList, Bool.and_eq_true, isEncodable_serialized_iff hw,
      isEncodableList_serialized_iff hws, DisplaysList]

theorem isEncodableEntries_serialized_iff : ∀ {es ws : Entries}, serializedEntries es = .ok ws →
    (Json.isEncodableEntries ws = true ↔ DisplaysEntries es)
  | [], _, h => by
    cases h
    simp [Json.isEncodableEntries, DisplaysEntries]
  | (k, v) :: es, _, h => by
    obtain ⟨w, hw, h⟩ := bind_eq_ok.1 h
    obtain ⟨ws, hws, h⟩ := bind_eq_ok.1 h
    cases h
    rw [Json.isEncodableEntries, Bool.and_eq_true, isEncodable_serialized_iff hw,
      isEncodableEntries_serialized_iff hws, DisplaysEntries]

end

theorem displaysEntries_iff {es : Entries} : DisplaysEntries es ↔ ∀ e ∈ es, e.2.Displays := by
  induction es with
  | nil => simp [DisplaysEntries]
  | cons e es ih => simp [DisplaysEntries, ih]

theorem displaysList_iff {vs : List Value} : DisplaysList vs ↔ ∀ v ∈ vs, v.Displays := by
  induction vs with
  | nil => simp [DisplaysList]
  | cons v vs ih => simp [DisplaysList, ih]

mutual

/-- A value without decimals stands in an answer as it is. -/
theorem displays_of_plain : ∀ {v : Value}, Json.Plain v → Json.isEncodable v = true → v.Displays
  | .null, _, _ | .bool _, _, _ | .int _, _, _ | .text _, _, _ => trivial
  | .float _, _, h => h
  | .list _, hplain, h => displaysList_of_plain hplain h
  | .mapping _, hplain, h => displaysEntries_of_plain hplain h

theorem displaysList_of_plain : ∀ {vs : List Value}, Json.PlainList vs →
    Json.isEncodableList vs = true → DisplaysList vs
  | [], _, _ => trivial
  | _ :: _, hplain, h => by
    obtain ⟨hv, hvs⟩ := Bool.and_eq_true_iff.1 h
    exact ⟨displays_of_plain hplain.1 hv, displaysList_of_plain hplain.2 hvs⟩

theorem displaysEntries_of_plain : ∀ {es : Entries}, Json.PlainEntries es →
    Json.isEncodableEntries es = true → DisplaysEntries es
  | [], _, _ => trivial
  | (_, _) :: _, hplain, h => by
    obtain ⟨hv, hvs⟩ := Bool.and_eq_true_iff.1 h
    exact ⟨displays_of_plain hplain.1 hv, displaysEntries_of_plain hplain.2 hvs⟩

end

end Value

/-! ## Records -/

namespace Store

/-- The number in a cell of a column is a finite double, and so are those in a JSON text. -/
def Cell.Finite (type : ColumnType) : Cell → Prop
  | .real x => x.IsDouble ∧ x.isFinite = true
  | .text s => type = .json → ∀ v, Json.read? s.toList = some v → Json.isEncodable v = true
  | _ => True

/-- The numbers in a table are finite, and its decimals have as many places as can be written. -/
structure Table.Finite (t : Table) : Prop where
  formats : ∀ c ∈ t.columns, c.type.hasFormat = true
  cells : ∀ row ∈ t.rows, ∀ c ∈ t.columns, (row.cell c.name).Finite c.type

theorem ColumnType.displays_places {places : Nat} (hplaces : places < 2 ^ 31) {x : Binary64}
    (hdouble : x.IsDouble) (hfinite : x.isFinite = true) :
    (ColumnType.places places x).Displays := by
  cases x with
  | finite negative m e =>
    unfold ColumnType.places
    cases hcount : (Binary64.finite negative m e).toPlaces? places with
    | none => cases hcount
    | some counted =>
      obtain ⟨negative', count⟩ := counted
      intro y hy
      rw [Decimal.toBinary64?, Option.some.injEq] at hy
      exact hy ▸ Binary64.isFinite_places hplaces hdouble hcount
  | _ => cases hfinite

theorem ColumnType.displays_readNumber {type : ColumnType} (hformat : type.hasFormat = true)
    {x : Binary64} (hdouble : x.IsDouble) (hfinite : x.isFinite = true) (whole : Option Int) :
    (type.readNumber x whole).Displays := by
  have hother : ((whole.map Value.int).getD (.float x)).Displays := by
    cases whole with
    | none => exact hfinite
    | some n => trivial
  cases type with
  | numeric places asDecimal =>
    cases asDecimal with
    | true => exact displays_places (by simpa [ColumnType.hasFormat] using hformat) hdouble hfinite
    | false => cases whole <;> exact hother
  | float => exact hfinite
  | boolean => trivial
  | _ => cases whole <;> exact hother

theorem ColumnType.displays_readNumber? {type : ColumnType} (hformat : type.hasFormat = true)
    {x : Binary64} (hdouble : x.IsDouble) (hfinite : x.isFinite = true) (whole : Option Int) :
    ((type.readNumber? x whole).getD .null).Displays := by
  unfold ColumnType.readNumber?
  cases type.readsNumbers with
  | false => trivial
  | true => exact displays_readNumber hformat hdouble hfinite whole

/-- The value that is read from a finite cell stands in an answer. -/
theorem ColumnType.displays_read {type : ColumnType} (hformat : type.hasFormat = true) {cell : Cell}
    (h : cell.Finite type) : (type.read cell).Displays := by
  cases cell with
  | null => trivial
  | integer n =>
    have hfinite : (((Binary64.ofInt? n).getD .zero).IsDouble ∧
        ((Binary64.ofInt? n).getD .zero).isFinite = true) := by
      cases hx : Binary64.ofInt? n with
      | none => exact ⟨Binary64.normal_zero, rfl⟩
      | some x =>
        obtain ⟨hnan, hinfinite⟩ := Binary64.finite_of_ofInt? n
        rw [hx] at hnan hinfinite
        refine ⟨Binary64.isDouble_ofInt? hx, ?_⟩
        cases x with
        | nan => cases hnan
        | infinity b => exact absurd rfl (hinfinite b)
        | finite => rfl
    exact displays_readNumber? hformat hfinite.1 hfinite.2 _
  | real x =>
    exact displays_readNumber? hformat h.1 h.2 _
  | text s =>
    simp only [ColumnType.read, ColumnType.read?, ColumnType.readText?]
    cases type with
    | date => cases Iso.readDate? s.toList <;> trivial
    | datetime => cases Iso.readDateTime? s.toList <;> trivial
    | uuid => cases Uuid.read? s.toList <;> trivial
    | json =>
      cases hread : Json.read? s.toList with
      | none => trivial
      | some v =>
        simp only [Option.getD_some]
        exact Value.displays_of_plain (Json.plain_of_read? hread) (h rfl v hread)
    | numeric places asDecimal => cases asDecimal <;> trivial
    | _ => trivial

end Store

namespace Executor

variable {x : Executor} {t : Table}

/-- The records of finite tables are encodable. -/
theorem visibleRecord_encodable (ht : t.Finite) (hcolumns : t.columns = x.metadata.model.columns)
    {row : Row} (hrow : row ∈ t.rows) {record : Entries} (h : x.visibleRecord row = .ok record) :
    Json.isEncodable (.mapping record) = true := by
  refine (Value.isEncodableEntries_serialized_iff h).2 (Value.displaysEntries_iff.2 ?_)
  intro e he
  obtain ⟨c, hc, rfl⟩ := List.mem_map.1 (List.mem_filter.1 he).1
  rw [← hcolumns] at hc
  exact ColumnType.displays_read (ht.formats c hc) (ht.cells row hrow c hc)

/-- So are the records in an envelope. -/
theorem records_encodable (ht : t.Finite) (hcolumns : t.columns = x.metadata.model.columns)
    {req : ExecutionRequest} {now : DateTime} {e : Envelope}
    (h : (x.execute t.run req now).result = .ok e) :
    ∀ record ∈ e.records, Json.isEncodable (.mapping record) = true := by
  obtain ⟨q, reply, -, hreply, hcomplete⟩ := execute_eq_ok h
  obtain ⟨total, henvelope, -, -⟩ := complete_eq_ok hcomplete
  obtain ⟨hrecords, -, -⟩ := envelope_eq_ok henvelope
  intro record hrecord
  obtain ⟨row, hrow, hvisible⟩ := exists_of_mem_right (mapM_eq_ok.1 hrecords) hrecord
  refine visibleRecord_encodable ht hcolumns (mem_of_mem_run hreply ?_) hvisible
  simp only [Batch.ofReply, Batch.takeRows] at hrow
  split at hrow <;> exact List.mem_of_mem_take hrow

end Executor

/-! ## Formats -/

/-- The format shows the filters that are applied, with their operands. -/
def Format.showsFilters : Format → Bool
  | .standard | .queryCache | .cacheFriendly => true
  | .rowModel | .dataTable | .infiniteScroll | .cursor => false

namespace Envelope

variable {e : Envelope}

@[simp] theorem isEncodable_textOrNull (s : Option String) :
    Json.isEncodable (textOrNull s) = true := by
  cases s <;> rfl

@[simp] theorem isEncodable_intOrNull (n : Option Int) :
    Json.isEncodable (intOrNull n) = true := by
  cases n <;> rfl

@[simp] theorem isEncodableEntries_optional (name : String) (o : Option Value) :
    Json.isEncodableEntries (optional name o) = true ↔ ∀ v ∈ o, Json.isEncodable v = true := by
  cases o with
  | none => simp [optional, Json.isEncodableEntries]
  | some v => simp [optional, Json.isEncodableEntries]

/-- What is said about a slice are integers, texts and words. -/
theorem pageEntries_encodable {entries : Entries} (h : e.pageEntries = .ok entries) :
    Json.isEncodableEntries entries = true := by
  unfold pageEntries at h
  obtain ⟨p, -, h⟩ := bind_eq_ok.1 h
  have hmore : Json.isEncodableEntries (optional "hasNextPage" (e.hasMore.map .bool)) = true := by
    cases e.hasMore <;> rfl
  have hentries {pages : Option Int} {place bounds : Entries}
      (hplace : Json.isEncodableEntries place = true)
      (hbounds : Json.isEncodableEntries bounds = true) :
      Json.isEncodableEntries ([("type", .text e.pagination.kind), ("pageSize", .int p.size)] ++
        place ++ bounds ++ optional "hasNextPage" (e.hasMore.map .bool) ++
        optional "total" (e.totalCount.map .int) ++ optional "totalPages" (pages.map .int)) =
      true := by
    simp [Json.isEncodableEntries_append, Json.isEncodableEntries, Json.isEncodable, hplace,
      hbounds, hmore]
  cases hpagination : e.pagination with
  | offset page =>
    rw [hpagination] at h hentries
    obtain ⟨pages, -, h⟩ := bind_eq_ok.1 h
    cases h
    exact hentries (by simp [Json.isEncodableEntries, Json.isEncodable]) rfl
  | window w =>
    rw [hpagination] at h hentries
    obtain ⟨pages, -, h⟩ := bind_eq_ok.1 h
    cases h
    exact hentries (by simp [Json.isEncodableEntries, Json.isEncodable]) rfl
  | cursor c =>
    rw [hpagination] at h hentries
    cases h
    exact hentries (by simp [Json.isEncodableEntries]) rfl

/-- The filters in an answer are encodable if their operands display. -/
theorem filterValues_encodable_iff {v : Value} (h : e.filterValues = .ok v) :
    Json.isEncodable v = true ↔ ∀ c ∈ e.appliedFilters, c.value.Displays := by
  obtain ⟨ws, hws, rfl⟩ := map_eq_ok.1 h
  rw [Json.isEncodable, Json.isEncodableList_iff]
  have hfilters := mapM_eq_ok.1 hws
  have hfilter {c : FilterCriterion} {w : Value} (hw : filterValue c = .ok w) :
      Json.isEncodable w = true ↔ c.value.Displays := by
    obtain ⟨v, hv, hw⟩ := bind_eq_ok.1 hw
    rw [pure_eq_ok] at hw
    subst hw
    simp [Json.isEncodable, Json.isEncodableEntries, Value.isEncodable_serialized_iff hv]
  constructor
  · intro hall c hc
    obtain ⟨w, hw, hcw⟩ := exists_of_mem_left hfilters hc
    exact (hfilter hcw).1 (hall w hw)
  · intro hall w hw
    obtain ⟨c, hc, hcw⟩ := exists_of_mem_right hfilters hw
    exact (hfilter hcw).2 (hall c hc)

theorem sortValues_encodable (e : Envelope) : Json.isEncodable e.sortValues = true := by
  simp [sortValues, Json.isEncodable, Json.isEncodableList_iff, Json.isEncodableEntries]

theorem searchValue_encodable (e : Envelope) : Json.isEncodable e.searchValue = true := by
  unfold searchValue
  split
  · simp [Json.isEncodable, Json.isEncodableEntries]
  · rfl

theorem about_encodable_iff (htime : ∀ x, e.queryTime = some x → x.isFinite = true) {v : Value}
    (h : e.about = .ok v) :
    Json.isEncodable v = true ↔ ∀ c ∈ e.appliedFilters, c.value.Displays := by
  obtain ⟨pagination, hpagination, h⟩ := bind_eq_ok.1 h
  obtain ⟨filters, hfilters, h⟩ := bind_eq_ok.1 h
  rw [pure_eq_ok] at h
  subst h
  have hperformance : Json.isEncodableEntries (optional "performance" (e.queryTime.map fun x =>
      .mapping [("queryTimeMs", .float x), ("recordCount", .int e.records.length)])) = true := by
    cases htaken : e.queryTime with
    | none => rfl
    | some x => simp [optional, Json.isEncodableEntries, Json.isEncodable, htime x htaken]
  rw [← filterValues_encodable_iff hfilters]
  simp [Json.isEncodable, Json.isEncodableEntries, hperformance,
    pageEntries_encodable hpagination, sortValues_encodable, searchValue_encodable, texts]

theorem cursorLinks_encodable (e : Envelope) (token : Option String) (size : Int) :
    Json.isEncodableEntries (e.cursorLinks token size) = true := by
  have hlink (c : Option String) : ∀ v ∈ e.cursorLink? size c, Json.isEncodable v = true := by
    intro v hv
    obtain ⟨_, -, rfl⟩ := Option.map_eq_some_iff.1 hv
    rfl
  have hself : Json.isEncodable ((e.cursorLink? size token).getD
      (e.link [("pageSize", intChars size)])) = true := by
    cases hsome : e.cursorLink? size token with
    | none => rfl
    | some v => exact hlink token v hsome
  simp only [cursorLinks, Json.isEncodableEntries, hself, Bool.true_and,
    isEncodableEntries_optional]
  exact hlink e.nextCursor

theorem pageLinks_encodable {number size : Int} {entries : Entries}
    (h : e.pageLinks number size = .ok entries) : Json.isEncodableEntries entries = true := by
  obtain ⟨pages, -, h⟩ := bind_eq_ok.1 h
  cases h
  have hlink (there : Bool) (name : String) (n : Int) :
      Json.isEncodableEntries (if there then [(name, e.pageLink n size)] else []) = true := by
    cases there <;> rfl
  iterate 4 rw [Json.isEncodableEntries_append]
  beta_reduce
  iterate 5 rw [hlink]
  rfl

/-- Links are texts. -/
theorem links_encodable {entries : Entries} (h : e.links = .ok entries) :
    Json.isEncodableEntries entries = true := by
  obtain ⟨p, -, h⟩ := bind_eq_ok.1 h
  split at h
  · cases h
    exact cursorLinks_encodable _ _ _
  · exact pageLinks_encodable h
  · cases h
    rfl

/-- All that every answer starts with is encodable if the records are. -/
theorem success_encodable (hrecords : ∀ r ∈ e.records, Json.isEncodable (.mapping r) = true) :
    Json.isEncodableEntries e.success = true := by
  have hdata : Json.isEncodableList (e.records.map .mapping) = true := by
    rw [Json.isEncodableList_iff]
    simpa using hrecords
  simp [success, data, Json.isEncodableEntries, Json.isEncodable, hdata]

end Envelope

/-- An answer is encodable just if the operands that it shows display. -/
theorem Format.render_encodable_iff {format : Format} {e : Envelope} {body : Entries}
    (hrecords : ∀ r ∈ e.records, Json.isEncodable (.mapping r) = true)
    (htime : ∀ x, e.queryTime = some x → x.isFinite = true) (h : format.render e = .ok body) :
    Json.isEncodable (.mapping body) = true ↔
      (format.showsFilters = true → ∀ c ∈ e.appliedFilters, c.value.Displays) := by
  have hbody (rest : Entries) :
      Json.isEncodable (.mapping (e.success ++ rest)) = Json.isEncodableEntries rest := by
    rw [Json.isEncodable, Json.isEncodableEntries_append, Envelope.success_encodable hrecords,
      Bool.true_and]
  have hmore : Json.isEncodable e.more = true := rfl
  cases format with
  | standard =>
    obtain ⟨about, habout, h⟩ := bind_eq_ok.1 h
    cases h
    rw [hbody, ← Envelope.about_encodable_iff htime habout]
    simp [Json.isEncodableEntries, showsFilters]
  | rowModel =>
    cases h
    rw [Envelope.renderRowModel, hbody]
    simp [Json.isEncodableEntries, showsFilters]
  | dataTable =>
    obtain ⟨page, -, h⟩ := bind_eq_ok.1 h
    cases h
    rw [hbody]
    simp [Json.isEncodableEntries, Json.isEncodable, showsFilters, hmore]
  | queryCache =>
    obtain ⟨about, habout, h⟩ := bind_eq_ok.1 h
    obtain ⟨links, hlinks, h⟩ := bind_eq_ok.1 h
    cases h
    rw [hbody, ← Envelope.about_encodable_iff htime habout]
    simp [Json.isEncodableEntries, Json.isEncodable, showsFilters,
      Envelope.links_encodable hlinks]
  | cacheFriendly =>
    obtain ⟨about, habout, h⟩ := bind_eq_ok.1 h
    obtain ⟨key, -, h⟩ := bind_eq_ok.1 h
    cases h
    rw [hbody, ← Envelope.about_encodable_iff htime habout]
    simp [Json.isEncodableEntries, Json.isEncodable, showsFilters]
  | infiniteScroll =>
    cases h
    rw [Envelope.renderInfiniteScroll, List.append_assoc, hbody]
    simp [Json.isEncodableEntries, Json.isEncodable, showsFilters, hmore]
  | cursor =>
    cases h
    rw [Envelope.renderCursor, List.append_assoc, hbody]
    simp [Json.isEncodableEntries, Json.isEncodable, showsFilters, hmore]

end RecordQuery
