import RecordQuery.Proofs.Bytes
import RecordQuery.Proofs.JsonText
import RecordQuery.Proofs.Readings
import RecordQuery.Proofs.Tokens
import RecordQuery.Proofs.Writings
import RecordQuery.Request.Grammar
import RecordQuery.Response.Links
import RecordQuery.Validation.Validator
import RecordQuery.Web.QueryString

/-!
# Where links lead

A link is a path with a query string, and a client that follows it sends this query string. A link
to a page is read as a request for that page.

* `QueryString.read_pairs`: what plain pairs in a query string are read as.
* `Envelope.LeadsTo`: a link is read as a request for a page.
* `Envelope.leadsTo_pageLink`: so it is with the links to pages; `LeadsTo.unique` says that a link
  leads to one page only.
-/

namespace RecordQuery

open RecordQuery.Digest RecordQuery.Number RecordQuery.Text

/-! ## Plain query strings -/

namespace Web.QueryString

/-- A character that stands for itself between the marks of a query string. -/
def isPlain (c : Char) : Bool := isAscii c && !(['%', '+', '&', '='].contains c)

variable {cs : List Char}

theorem isPlain_iff {c : Char} :
    isPlain c = true ↔ isAscii c = true ∧ c ≠ '%' ∧ c ≠ '+' ∧ c ≠ '&' ∧ c ≠ '=' := by
  simp [isPlain]

theorem utf8Encode_cons_of_isAscii {c : Char} (h : isAscii c = true) (cs : List Char) :
    utf8Encode (c :: cs) = c.toNat.toUInt8 :: utf8Encode cs := by
  have hbytes : charBytes c = [c.toNat.toUInt8] := by
    rw [charBytes, if_pos (of_decide_eq_true h)]
  rw [utf8Encode, List.flatMap_cons, hbytes]
  rfl

theorem arrived_of_isAscii (h : ∀ c ∈ cs, isAscii c = true) : arrived (.ofList cs) = cs := by
  rw [arrived, String.toList_ofList]
  induction cs with
  | nil => rfl
  | cons c cs ih =>
    obtain ⟨hc, hcs⟩ := List.forall_mem_cons.1 h
    have hbyte : c.toNat.toUInt8.toNat = c.toNat :=
      toUInt8_toNat (Nat.lt_trans (of_decide_eq_true hc) (by decide))
    rw [utf8Encode_cons_of_isAscii hc, List.map_cons, ih hcs, hbyte, Char.ofNat_toNat]

theorem percentBytes_of_isPlain (h : ∀ c ∈ cs, isPlain c = true) :
    percentBytes cs = utf8Encode cs := by
  induction cs with
  | nil => rfl
  | cons c cs ih =>
    obtain ⟨hc, hcs⟩ := List.forall_mem_cons.1 h
    obtain ⟨hascii, hpercent, -⟩ := isPlain_iff.1 hc
    rw [utf8Encode_cons_of_isAscii hascii, percentBytes, ih hcs]
    exact fun _ _ _ heq => absurd heq hpercent

theorem unquoteFrom_of_isAscii (run : List Char) (h : ∀ c ∈ cs, isAscii c = true) :
    unquoteFrom run cs = utf8Replace (percentBytes (run.reverse ++ cs)) := by
  induction cs generalizing run with
  | nil => rw [unquoteFrom, List.append_nil]
  | cons c cs ih =>
    obtain ⟨hc, hcs⟩ := List.forall_mem_cons.1 h
    rw [unquoteFrom, if_pos hc, ih _ hcs, List.reverse_cons, List.append_assoc]
    rfl

theorem unquote_of_isPlain (h : ∀ c ∈ cs, isPlain c = true) : unquote cs = .ofList cs := by
  have hplus : cs.map (fun c => if c = '+' then ' ' else c) = cs := by
    refine (List.map_congr_left fun c hc => ?_).trans (List.map_id cs)
    exact if_neg (isPlain_iff.1 (h c hc)).2.2.1
  rw [unquote, hplus, unquoteFrom_of_isAscii [] fun c hc => (isPlain_iff.1 (h c hc)).1,
    List.reverse_nil, List.nil_append, percentBytes_of_isPlain h, utf8Replace,
    decodeWith_utf8Encode _ cs (Nat.le_refl _), Option.getD_some]

theorem intercalate_eq_joinWith (sep : Char) (pieces : List (List Char)) :
    intercalate [sep] pieces = joinWith sep pieces := by
  induction pieces with
  | nil => rfl
  | cons piece rest ih =>
    cases rest with
    | nil => rfl
    | cons next rest =>
      rw [intercalate, ih, List.append_assoc]
      · rfl
      · exact List.cons_ne_nil _ _

theorem mem_joinWith {sep c : Char} {pieces : List (List Char)} (h : c ∈ joinWith sep pieces) :
    c = sep ∨ ∃ piece ∈ pieces, c ∈ piece := by
  induction pieces with
  | nil => cases h
  | cons piece rest ih =>
    cases rest with
    | nil => exact .inr ⟨piece, List.mem_cons_self, h⟩
    | cons next rest =>
      rcases List.mem_append.1 h with h | h
      · exact .inr ⟨piece, List.mem_cons_self, h⟩
      · rcases List.mem_cons.1 h with rfl | h
        · exact .inl rfl
        · rcases ih h with rfl | ⟨piece', hpiece', hc⟩
          · exact .inl rfl
          · exact .inr ⟨piece', List.mem_cons_of_mem _ hpiece', hc⟩

/-- A pair as it is written. -/
def pairChars (p : String × List Char) : List Char := p.1.toList ++ '=' :: p.2

theorem readPart_pairChars {p : String × List Char} (hkey : ∀ c ∈ p.1.toList, isPlain c = true)
    (hvalue : ∀ c ∈ p.2, isPlain c = true) :
    readPart (pairChars p) = (p.1, .text (.ofList p.2)) := by
  have hmark : '=' ∉ p.1.toList := fun hmem => (isPlain_iff.1 (hkey _ hmem)).2.2.2.2 rfl
  rw [readPart, pairChars, cutAt_append hmark]
  simp only [Option.getD_some, unquote_of_isPlain hkey, unquote_of_isPlain hvalue,
    String.ofList_toList]

/-- Plain pairs are read as they are written. -/
theorem read_pairs {pairs : List (String × List Char)} (hne : pairs ≠ [])
    (hkeys : ∀ p ∈ pairs, ∀ c ∈ p.1.toList, isPlain c = true)
    (hvalues : ∀ p ∈ pairs, ∀ c ∈ p.2, isPlain c = true) :
    read (.ofList (intercalate ['&'] (pairs.map pairChars))) =
      pairs.map fun p => (p.1, .text (.ofList p.2)) := by
  have hchars : ∀ part ∈ pairs.map pairChars, ∀ c ∈ part, isAscii c = true ∧ c ≠ '&' := by
    intro part hpart c hc
    obtain ⟨p, hp, rfl⟩ := List.mem_map.1 hpart
    rcases List.mem_append.1 hc with hc | hc
    · have hplain := isPlain_iff.1 (hkeys p hp c hc)
      exact ⟨hplain.1, hplain.2.2.2.1⟩
    · rcases List.mem_cons.1 hc with rfl | hc
      · decide
      · have hplain := isPlain_iff.1 (hvalues p hp c hc)
        exact ⟨hplain.1, hplain.2.2.2.1⟩
  have hascii : ∀ c ∈ joinWith '&' (pairs.map pairChars), isAscii c = true := by
    intro c hc
    rcases mem_joinWith hc with rfl | ⟨part, hpart, hc⟩
    · decide
    · exact (hchars part hpart c hc).1
  have hparts : ∀ part ∈ pairs.map pairChars, (!part.isEmpty) = true := by
    intro part hpart
    obtain ⟨p, -, rfl⟩ := List.mem_map.1 hpart
    simp [pairChars]
  rw [read, intercalate_eq_joinWith, arrived_of_isAscii hascii,
    splitOn_joinWith (by simpa using hne) fun part hpart hmark => (hchars part hpart _ hmark).2 rfl,
    List.filter_eq_self.2 hparts, List.map_map]
  exact List.map_congr_left fun p hp => readPart_pairChars (hkeys p hp) (hvalues p hp)

end Web.QueryString

/-! ## Numerals in requests -/

namespace Number

theorem isDigit_of_mem_natDigits {n : Nat} {c : Char} (h : c ∈ natDigits n) :
    isDigit c = true := by
  have hascii := isAsciiDigit_iff.1 (isAsciiDigit_of_mem_natDigits h)
  simp [isDigit, isDecimal, decimalValue?, hascii]

/-- Digits are read as the number that they write, if there are not too many. -/
theorem readInt_natDigits {n : Nat} (h : (natDigits n).length ≤ maxDigits) :
    readInt (natDigits n) = some (n : Int) := by
  have hdigits : ∀ c ∈ natDigits n, isDigit c = true := fun c => isDigit_of_mem_natDigits
  have hascii : asciiDigits (natDigits n) = natDigits n := by
    refine asciiDigits_of_ascii fun c hc => ?_
    have := (isAsciiDigit_iff.1 (isAsciiDigit_of_mem_natDigits hc)).2
    omega
  rw [readInt, stripAround_digits hdigits, hascii, ungroup,
    ungroupFrom_digits hdigits (by decide), Option.bind_eq_bind, Option.bind_some,
    splitSign_digits hdigits]
  simp only [if_neg (Nat.not_lt.2 h), readNat_natDigits]
  rfl

end Number

/-! ## Links to pages -/

section Numeral

open RecordQuery.Validator (wholeNumber?)

variable {n : Nat}

/-- The digits of a number in a parameter. -/
def numeral (n : Nat) : Value := .text (.ofList (natDigits n))

theorem numeral_ne (n : Nat) : String.ofList (natDigits n) ≠ "" := by
  rw [Ne, String.ofList_eq_empty_iff]
  exact natDigits_ne_nil n

/-- A number is read if it is not too long for a numeral, as those in reach of the store are not. -/
theorem wholeNumber?_numeral (h : n ≤ 2 ^ 64) : wholeNumber? (numeral n) = some (n : Int) := by
  have hshort : n < 10 ^ maxDigits :=
    calc n ≤ 2 ^ 64 := h
      _ < 10 ^ 20 := by decide
      _ ≤ 10 ^ maxDigits := Nat.pow_le_pow_right (by norm_num) (by decide)
  have htrim : trimChars (natDigits n) = natDigits n := by
    refine stripChars_of_forall fun c hc => ?_
    exact isBlank_of_isDigit (isDigit_of_mem_natDigits hc)
  have htrimmed : (numeral n).trimmed = natDigits n := by
    rw [numeral, Value.trimmed, Value.chars, String.toList_ofList, htrim]
    intro hnull
    cases hnull
  rw [numeral] at htrimmed ⊢
  rw [wholeNumber?, htrimmed, readInt_natDigits (length_natDigits_le (by decide) hshort)]
  all_goals exact fun _ heq => by cases heq

end Numeral

namespace Envelope

open RecordQuery.Validator (wholeNumber? checkNonNegative)

variable (e : Envelope)

/-- The query string of the link is read as a request for the page. -/
def LeadsTo (link : Value) (page : OffsetPage) : Prop :=
  ∃ query draft,
    link = .text (.ofList ((e.resourcePath.getD "").toList ++ '?' :: String.toList query)) ∧
    DraftQuery.read (.ofPairs (Web.QueryString.read query)) = .ok draft ∧
    draft.pagination.kind = .offset ∧
    wholeNumber? draft.pagination.page = some (page.page : Int) ∧
    wholeNumber? draft.pagination.pageSize = some (page.pageSize : Int)

theorem LeadsTo.unique {e : Envelope} {link : Value} {page page' : OffsetPage}
    (h : e.LeadsTo link page) (h' : e.LeadsTo link page') : page = page' := by
  obtain ⟨query, draft, rfl, hdraft, -, hpage, hsize⟩ := h
  obtain ⟨query', draft', hlink, hdraft', -, hpage', hsize'⟩ := h'
  have hquery : query = query' := by
    have hchars := String.ofList_injective (Value.text.inj hlink)
    rw [List.append_cancel_left_eq, List.cons.injEq, String.toList_inj] at hchars
    exact hchars.2
  subst hquery
  rw [hdraft] at hdraft'
  cases hdraft'
  rw [hpage, Option.some.injEq, Int.natCast_inj] at hpage'
  rw [hsize, Option.some.injEq, Int.natCast_inj] at hsize'
  cases page
  cases page'
  simp_all

theorem leadsTo_pageLink {number size : Nat} (hnumber : 1 ≤ number) (hsize : 1 ≤ size)
    (hnumberLe : number ≤ 2 ^ 64) (hsizeLe : size ≤ 2 ^ 64) :
    e.LeadsTo (e.pageLink number size) ⟨number, size, hnumber, hsize⟩ := by
  have hplain : ∀ n : Nat, ∀ c ∈ natDigits n, Web.QueryString.isPlain c = true := by
    intro n c hc
    have hdigit := isAsciiDigit_iff.1 (isAsciiDigit_of_mem_natDigits hc)
    refine Web.QueryString.isPlain_iff.2 ⟨decide_eq_true (by omega), ?_, ?_, ?_, ?_⟩ <;>
      rintro rfl <;> exact absurd hdigit (by decide)
  have hall : (["page", "pageSize"].all fun key =>
      key.toList.all Web.QueryString.isPlain) = true := by decide
  have hkeys : ∀ key ∈ ["page", "pageSize"], ∀ c ∈ key.toList,
      Web.QueryString.isPlain c = true := by
    intro key hkey
    exact List.all_eq_true.1 (List.all_eq_true.1 hall key hkey)
  have hread : Web.QueryString.read (.ofList (intercalate ['&']
      ([("page", natDigits number), ("pageSize", natDigits size)].map Web.QueryString.pairChars))) =
        [("page", numeral number), ("pageSize", numeral size)] := by
    rw [Web.QueryString.read_pairs (List.cons_ne_nil _ _)]
    · rfl
    · exact fun p hp => hkeys p.1 (List.mem_map_of_mem (f := (·.1)) hp)
    · simpa using ⟨hplain number, hplain size⟩
  refine ⟨.ofList (intercalate ['&']
      ([("page", natDigits number), ("pageSize", natDigits size)].map Web.QueryString.pairChars)),
    Simple.read [("page", numeral number), ("pageSize", numeral size)], ?_, ?_, ?_, ?_, ?_⟩
  · rw [String.toList_ofList]
    rfl
  · rw [hread]
    rfl
  · rfl
  · have hpage : (Simple.read [("page", numeral number),
        ("pageSize", numeral size)]).pagination.page = numeral number :=
      Params.first_of_text rfl (numeral_ne number) []
    rw [hpage, wholeNumber?_numeral hnumberLe]
  · have hpageSize : (Simple.read [("page", numeral number),
        ("pageSize", numeral size)]).pagination.pageSize = numeral size :=
      Params.first_of_text rfl (numeral_ne size) _
    rw [hpageSize, wholeNumber?_numeral hsizeLe]

/-- A request that a link leads to is accepted by every validator that allows for its size. -/
theorem LeadsTo.accepted {e : Envelope} {link : Value} {page : OffsetPage}
    (h : e.LeadsTo link page) :
    ∃ query draft,
      link = .text (.ofList ((e.resourcePath.getD "").toList ++ '?' :: String.toList query)) ∧
      DraftQuery.read (.ofPairs (Web.QueryString.read query)) = .ok draft ∧
      ∀ (v : Validator) (sort : List SortCriterion), (page.pageSize : Int) ≤ v.maxPageSize →
        v.checkPagination sort draft.pagination = .ok { accepted := .offset page } := by
  obtain ⟨query, draft, hlink, hdraft, hkind, hpage, hsize⟩ := h
  refine ⟨query, draft, hlink, hdraft, fun v sort hmax => ?_⟩
  have hpos := page.page_pos
  have hsizePos := page.size_pos
  have hthere : ∀ (raw : Value) (n : Nat), wholeNumber? raw = some (n : Int) →
      raw.isMissing = false := by
    intro raw n hread
    rw [Bool.eq_false_iff]
    intro hmissing
    cases raw with
    | null => cases hread
    | text s =>
      obtain rfl : s = "" := by
        simpa [Value.isMissing, Value.isNull, Value.isEmptyText] using hmissing
      cases hread
    | _ => cases hmissing
  have hwhole : ¬ (page.pageSize : Int) ≤ 0 := by omega
  rw [Validator.checkPagination, hkind]
  simp only [Validator.checkOffset, Validator.checkPageSize, checkNonNegative, hthere _ _ hpage,
    hthere _ _ hsize, hpage, hsize, Bool.false_eq_true, if_false, if_neg hwhole,
    if_neg (Int.not_lt.2 (Int.natCast_nonneg page.page)), Option.getD_some, min_eq_left hmax,
    max_eq_left (show (1 : Int) ≤ page.page by omega)]
  rw [Pagination.ofOffset?, dif_pos ⟨by simpa using hpos, by simpa using hsizePos⟩]
  rfl

/-! ### What there is for a page -/

theorem get?_single (b : Bool) (name key : String) (v : Value) :
    Entries.get? (if b then [(name, v)] else []) key =
      if b = true ∧ name = key then some v else none := by
  cases b <;> by_cases h : name = key <;> simp [Entries.get?, h]

theorem get?_optional (name key : String) (v : Option Value) :
    Entries.get? (optional name v) key = if name = key then v else none := by
  cases v <;> by_cases h : name = key <;> simp [optional, Entries.get?, h]

variable {e}

/-- The links of a page: there is one to itself, and further ones where a page comes before it or
after it. -/
structure Linked (e : Envelope) (number size : Int) (pages : Option Int) (links : Entries) :
    Prop where
  self : links.get? "self" = some (e.pageLink number size)
  prev : links.get? "prev" = if 1 < number then some (e.pageLink (number - 1) size) else none
  next : links.get? "next" =
    if e.hasMore = some true then some (e.pageLink (number + 1) size) else none
  last : links.get? "last" =
    if pages.getD 0 ≠ 0 ∧ number < pages.getD 0 then some (e.pageLink (pages.getD 0) size) else none

theorem linked_pageLinks (number : Int) {size : Int} {pages : Option Int}
    (h : e.totalPages size = .ok pages) :
    ∃ links, e.pageLinks number size = .ok links ∧ e.Linked number size pages links := by
  refine ⟨_, bind_eq_ok.2 ⟨pages, h, rfl⟩, ?_⟩
  have hmore : e.hasMore.getD false = true ↔ e.hasMore = some true := by
    cases e.hasMore <;> simp
  constructor <;>
    simp only [Entries.get?_append, get?_single] <;>
    simp [Entries.get?, hmore]

theorem links_eq_pageLinks {p : PagePosition} {number : Int}
    (hnumbered : e.pagination.isCursor = false) (hp : e.page = .ok p)
    (hnumber : p.number = some number) : e.links = e.pageLinks number p.size := by
  unfold links
  rw [hp]
  simp only [bind, Except.bind, hnumber]
  split
  · rename_i c hc
    rw [hc] at hnumbered
    cases hnumbered
  · rename_i heq _
    cases heq
    rfl
  · rename_i hnone _
    cases hnone

/-- What a response says of a page. -/
structure Described (e : Envelope) (offset : Nat) (pages : Option Int) (block : Entries) :
    Prop where
  hasPreviousPage : block.get? "hasPreviousPage" = some (.bool (0 < offset))
  hasNextPage : block.get? "hasNextPage" = e.hasMore.map .bool
  totalPages : block.get? "totalPages" = pages.map .int

theorem described_pageEntries {p : PagePosition} {pages : Option Int}
    (hnumbered : e.pagination.isCursor = false) (hp : e.page = .ok p)
    (hpages : e.totalPages p.size = .ok pages) :
    ∃ block, e.pageEntries = .ok block ∧ e.Described p.offset pages block := by
  unfold pageEntries
  rw [hp, hnumbered]
  refine ⟨_, bind_eq_ok.2 ⟨p, rfl, bind_eq_ok.2 ⟨pages, hpages, rfl⟩⟩, ?_⟩
  cases hpagination : e.pagination with
  | cursor c =>
    rw [hpagination] at hnumbered
    cases hnumbered
  | offset page =>
    constructor <;>
      simp only [Entries.get?_append, get?_optional] <;>
      simp [Entries.get?]
  | window w =>
    constructor <;>
      simp only [Entries.get?_append, get?_optional] <;>
      simp [Entries.get?]

end Envelope

end RecordQuery
