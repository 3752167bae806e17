import RecordQuery.Proofs.JsonText
import RecordQuery.Proofs.Shortest

/-!
# Pieces of JSON texts

The text of a collection tells the texts of its members, and that of a string or a number tells the
string or number. No reader is involved, so that nothing has to be short enough to be read.

* `Json.piece`: the part of a text up to the next mark outside all strings and collections.
* `Json.piece_chars`: the text of a value is one piece.
* `Json.canonical`: the text of a value with its mappings in key order.
* `Json.canonical_mapping`: equal texts of mappings have equal keys, with equal texts below them.
-/

namespace RecordQuery.Json

open RecordQuery.Number

/-! ## Scanning -/

/-- Where a scan of a text is: in so many collections, and maybe in a string, of which the next
character may be escaped. -/
inductive Place where
  | outside (depth : Nat)
  | quoted (depth : Nat)
  | escaped (depth : Nat)

namespace Place

def next : Place → Char → Place
  | outside d, c =>
    if c = '"' then quoted d
    else if c = '[' ∨ c = '\x7b' then outside (d + 1)
    else if c = ']' ∨ c = '\x7d' then outside (d - 1)
    else outside d
  | quoted d, c => if c = '"' then outside d else if c = '\\' then escaped d else quoted d
  | escaped d, _ => quoted d

/-- A mark outside all strings and collections. -/
def stopsAt : Place → Char → Bool
  | outside 0, c => c == ',' || c == ']' || c == '\x7d'
  | _, _ => false

end Place

/-- The part of a text up to the next mark, and the rest. -/
def piece : Place → List Char → List Char × List Char
  | _, [] => ([], [])
  | p, c :: cs =>
    if p.stopsAt c then ([], c :: cs) else (c :: (piece (p.next c) cs).1, (piece (p.next c) cs).2)

theorem piece_ends {rest : List Char} (h : Ends rest) : piece (.outside 0) rest = ([], rest) := by
  cases rest with
  | nil => rfl
  | cons c rest =>
    have hstop : Place.stopsAt (.outside 0) c = true := by
      rcases h c rfl with rfl | rfl | rfl
      all_goals rfl
    rw [piece, if_pos hstop]

/-- A scan passes over the characters without stopping. -/
def Passes (p : Place) (cs : List Char) (q : Place) : Prop :=
  ∀ rest, piece p (cs ++ rest) = (cs ++ (piece q rest).1, (piece q rest).2)

namespace Passes

variable {p q r : Place} {cs ds : List Char}

theorem nil (p : Place) : Passes p [] p := fun _ => rfl

theorem append (h : Passes p cs q) (h' : Passes q ds r) : Passes p (cs ++ ds) r := by
  intro rest
  rw [List.append_assoc, h, h', List.append_assoc]

theorem single {c : Char} (hstop : p.stopsAt c = false) (hnext : p.next c = q) :
    Passes p [c] q := by
  intro rest
  rw [List.singleton_append, piece, hstop, hnext]
  rfl

theorem cons {c : Char} (hstop : p.stopsAt c = false) (hnext : p.next c = q) (h : Passes q cs r) :
    Passes p (c :: cs) r :=
  append (single hstop hnext) h

/-- A scan that comes back to its place after every part comes back to it after all of them. -/
theorem flatMap {α : Type} {f : α → List Char} (h : ∀ a, Passes p (f a) p) (as : List α) :
    Passes p (as.flatMap f) p := by
  induction as with
  | nil => exact nil p
  | cons a as ih => exact append (h a) ih

theorem ofForall (h : ∀ c ∈ cs, p.stopsAt c = false ∧ p.next c = p) : Passes p cs p := by
  induction cs with
  | nil => exact nil p
  | cons c cs ih =>
    have hc := h c List.mem_cons_self
    exact cons hc.1 hc.2 (ih fun d hd => h d (List.mem_cons_of_mem _ hd))

end Passes

/-! ## Single values -/

/-- The characters that a scan does not just pass over. -/
def marks : List Char := ['"', '\\', ',', '[', ']', '\x7b', '\x7d']

/-- A character that is no mark, no quote and no escape. -/
def isOrdinary (c : Char) : Bool := !(marks.contains c)

theorem ne_of_isOrdinary {c : Char} (h : isOrdinary c = true) :
    c ≠ '"' ∧ c ≠ '\\' ∧ c ≠ ',' ∧ c ≠ '[' ∧ c ≠ ']' ∧ c ≠ '\x7b' ∧ c ≠ '\x7d' := by
  simpa [isOrdinary, marks] using h

/-- The characters of a class that has none of the marks are ordinary. -/
theorem isOrdinary_of_class {p : Char → Bool} (hp : marks.all (fun m => !p m) = true) {c : Char}
    (h : p c = true) : isOrdinary c = true := by
  rw [isOrdinary, Bool.not_eq_true', Bool.eq_false_iff]
  intro hmem
  have hmark := List.all_eq_true.1 hp c (List.contains_iff_mem.1 hmem)
  rw [h] at hmark
  cases hmark

theorem passes_ordinary {cs : List Char} (h : ∀ c ∈ cs, isOrdinary c = true) (depth : Nat) :
    Passes (.outside depth) cs (.outside depth) ∧ Passes (.quoted depth) cs (.quoted depth) := by
  constructor
  · apply Passes.ofForall
    intro c hc
    obtain ⟨hquote, -, hcomma, hopen, hclose, hbrace, hend⟩ := ne_of_isOrdinary (h c hc)
    refine ⟨?_, by simp [Place.next, hquote, hopen, hclose, hbrace, hend]⟩
    cases depth with
    | zero => simp [Place.stopsAt, hcomma, hclose, hend]
    | succ depth => rfl
  · apply Passes.ofForall
    intro c hc
    obtain ⟨hquote, hescape, -⟩ := ne_of_isOrdinary (h c hc)
    exact ⟨rfl, by simp [Place.next, hquote, hescape]⟩

theorem isOrdinary_of_isNumberChar {c : Char} (h : isNumberChar c = true) :
    isOrdinary c = true :=
  isOrdinary_of_class (by decide) h

theorem isNumberChar_of_mem_intChars {n : Int} {c : Char} (h : c ∈ intChars n) :
    isNumberChar c = true := by
  cases n with
  | ofNat n => exact isNumberChar_of_digit (isAsciiDigit_of_mem_natDigits h)
  | negSucc n =>
    rcases List.mem_cons.1 h with rfl | h
    · decide
    · exact isNumberChar_of_digit (isAsciiDigit_of_mem_natDigits h)

theorem isOrdinary_of_mem_floatChars {x : Binary64} {c : Char} (h : c ∈ floatChars x) :
    isOrdinary c = true := by
  cases x with
  | nan =>
    have hall : "NaN".toList.all isOrdinary = true := by decide
    exact List.all_eq_true.1 hall c h
  | infinity negative =>
    have hall : (Binary64.signed negative "Infinity".toList).all isOrdinary = true := by
      cases negative <;> decide
    exact List.all_eq_true.1 hall c h
  | finite negative m e => exact isOrdinary_of_isNumberChar ((finite_chars negative m e).1 c h)

/-! ## Strings -/

theorem passes_escape (depth : Nat) (c : Char) :
    Passes (.quoted depth) ['\\', c] (.quoted depth) :=
  Passes.cons (q := .escaped depth) rfl rfl (Passes.single rfl rfl)

theorem passes_unitEscape (depth n : Nat) :
    Passes (.quoted depth) (unitEscape n) (.quoted depth) := by
  have hdigits : ∀ c ∈ Uuid.hexDigits 4 n, isOrdinary c = true := fun c hc =>
    isOrdinary_of_class (by decide) (Uuid.isHexChar_of_mem_hexDigits hc)
  exact (passes_escape depth 'u').append (passes_ordinary hdigits depth).2

theorem passes_stringChar (depth : Nat) (c : Char) :
    Passes (.quoted depth) (stringChar c) (.quoted depth) := by
  unfold stringChar
  split_ifs with hquote hescape
  all_goals try exact passes_escape depth _
  · exact Passes.single rfl (by simp [Place.next, hquote, hescape])
  · exact passes_unitEscape depth _
  · exact (passes_unitEscape depth _).append (passes_unitEscape depth _)

theorem passes_stringChars (depth : Nat) (s : List Char) :
    Passes (.outside depth) (stringChars s) (.outside depth) := by
  have hopen : Place.stopsAt (.outside depth) '"' = false := by cases depth <;> rfl
  exact ((Passes.single hopen rfl).append (Passes.flatMap (passes_stringChar depth) s)).append
    (Passes.single rfl rfl)

/-! ## Collections -/

/-- What follows the first member of a collection, by the text of the others. -/
def tail {α : Type} (text : List α → List Char) : List α → List Char
  | [] => []
  | a :: as => ',' :: text (a :: as)

theorem listChars_cons (v : Value) (rest : List Value) :
    listChars [] (v :: rest) = chars v ++ tail (listChars []) rest := by
  cases rest <;> simp [listChars, tail, chars]

/-- The text of an entry of a mapping. -/
def entryChars (e : String × Value) : List Char := stringChars e.1.toList ++ ([':'] ++ chars e.2)

theorem entriesChars_cons (e : String × Value) (rest : Entries) :
    entriesChars [] (e :: rest) = entryChars e ++ tail (entriesChars []) rest := by
  cases rest <;> simp [entriesChars, entryChars, tail, chars]

theorem ends_tail {α : Type} (text : List α → List Char) (as : List α) : Ends (tail text as) := by
  cases as with
  | nil => exact fun c hc => nomatch hc
  | cons a as => exact ends_comma _

theorem tail_inj {α : Type} {text : List α → List Char} {as bs : List α}
    (h : tail text as = tail text bs) : text as = text bs := by
  cases as with
  | nil =>
    cases bs with
    | nil => rfl
    | cons b bs => cases h
  | cons a as =>
    cases bs with
    | nil => cases h
    | cons b bs => exact (List.cons.inj h).2

theorem passes_mark {c : Char} (hc : c = ',' ∨ c = ':') (depth : Nat) :
    Passes (.outside (depth + 1)) [c] (.outside (depth + 1)) := by
  rcases hc with rfl | rfl
  all_goals exact Passes.single rfl rfl

/-- The marks of a collection around a text. -/
theorem passes_enclosed {opening closing : Char}
    (hopen : opening = '[' ∧ closing = ']' ∨ opening = '\x7b' ∧ closing = '\x7d') {depth : Nat}
    {cs : List Char} (h : Passes (.outside (depth + 1)) cs (.outside (depth + 1))) :
    Passes (.outside depth) (opening :: cs ++ [closing]) (.outside depth) := by
  rcases hopen with ⟨rfl, rfl⟩ | ⟨rfl, rfl⟩
  all_goals
    refine Passes.cons (q := .outside (depth + 1)) ?_ rfl (h.append (Passes.single rfl rfl))
    cases depth <;> rfl

mutual

theorem passes_chars : ∀ (v : Value) (depth : Nat),
    Passes (.outside depth) (charsWith [] v) (.outside depth)
  | .null, depth => (passes_ordinary (List.all_eq_true.1 (by decide)) depth).1
  | .bool b, depth => by
    cases b
    all_goals exact (passes_ordinary (List.all_eq_true.1 (by decide)) depth).1
  | .int n, depth => (passes_ordinary (fun _ hc => isOrdinary_of_isNumberChar
      (isNumberChar_of_mem_intChars hc)) depth).1
  | .float x, depth => (passes_ordinary (fun _ hc => isOrdinary_of_mem_floatChars hc) depth).1
  | .decimal d, depth => passes_stringChars depth (Value.decimal d).chars
  | .date d, depth => passes_stringChars depth (Value.date d).chars
  | .datetime t, depth => passes_stringChars depth (Value.datetime t).chars
  | .uuid u, depth => passes_stringChars depth (Value.uuid u).chars
  | .text s, depth => passes_stringChars depth (Value.text s).chars
  | .list items, depth => passes_enclosed (.inl ⟨rfl, rfl⟩) (passes_listChars items depth)
  | .tuple items, depth => passes_enclosed (.inl ⟨rfl, rfl⟩) (passes_listChars items depth)
  | .mapping entries, depth => passes_enclosed (.inr ⟨rfl, rfl⟩) (passes_entriesChars entries depth)

theorem passes_listChars : ∀ (items : List Value) (depth : Nat),
    Passes (.outside (depth + 1)) (listChars [] items) (.outside (depth + 1))
  | [], _ => Passes.nil _
  | v :: rest, depth => by
    rw [listChars_cons]
    refine (passes_chars v (depth + 1)).append ?_
    match rest with
    | [] => exact Passes.nil _
    | w :: rest => exact (passes_mark (.inl rfl) depth).append (passes_listChars (w :: rest) depth)

theorem passes_entriesChars : ∀ (entries : Entries) (depth : Nat),
    Passes (.outside (depth + 1)) (entriesChars [] entries) (.outside (depth + 1))
  | [], _ => Passes.nil _
  | (k, v) :: rest, depth => by
    rw [entriesChars_cons]
    refine ((passes_stringChars (depth + 1) k.toList).append
      ((passes_mark (.inr rfl) depth).append (passes_chars v (depth + 1)))).append ?_
    match rest with
    | [] => exact Passes.nil _
    | e :: rest =>
      exact (passes_mark (.inl rfl) depth).append (passes_entriesChars (e :: rest) depth)

end

/-- The text of a value is one piece of a longer text. -/
theorem piece_chars (v : Value) {rest : List Char} (h : Ends rest) :
    piece (.outside 0) (chars v ++ rest) = (chars v, rest) := by
  have hpasses := passes_chars v 0 rest
  rw [piece_ends h, List.append_nil] at hpasses
  exact hpasses

/-- Two values that begin the same text have the same text. -/
theorem chars_append_inj {v w : Value} {rest rest' : List Char} (hrest : Ends rest)
    (hrest' : Ends rest') (h : chars v ++ rest = chars w ++ rest') :
    chars v = chars w ∧ rest = rest' := by
  have hpiece := piece_chars v hrest
  rw [h, piece_chars w hrest', Prod.mk.injEq] at hpiece
  exact ⟨hpiece.1.symm, hpiece.2.symm⟩

/-! ## Members -/

theorem floatChars_ne_nil (x : Binary64) : floatChars x ≠ [] := by
  cases x with
  | nan => decide
  | infinity negative => cases negative <;> decide
  | finite negative m e =>
    obtain ⟨-, c, cs, -, h | h⟩ := finite_chars negative m e
    · exact fun hnil => absurd (h.symm.trans hnil) (List.cons_ne_nil c cs)
    · exact fun hnil => absurd (h.symm.trans hnil) (List.cons_ne_nil '-' (c :: cs))

theorem chars_ne_nil (v : Value) : chars v ≠ [] := by
  cases v with
  | null => exact List.cons_ne_nil _ _
  | bool b => cases b <;> exact List.cons_ne_nil _ _
  | int n =>
    cases n with
    | ofNat n => exact natDigits_ne_nil n
    | negSucc n => exact List.cons_ne_nil _ _
  | float x => exact floatChars_ne_nil x
  | _ => exact List.cons_ne_nil _ _

/-- Two strings that begin the same text are the same. -/
theorem stringChars_append_inj {s s' rest rest' : List Char}
    (h : stringChars s ++ rest = stringChars s' ++ rest') : s = s' ∧ rest = rest' := by
  have hbody : s.flatMap stringChar ++ '"' :: rest = s'.flatMap stringChar ++ '"' :: rest' := by
    simpa [stringChars] using h
  have hread := stringBody_chars s rest
  rw [hbody, stringBody_chars s' rest', Option.some.injEq, Prod.mk.injEq] at hread
  exact ⟨hread.1.symm, hread.2.symm⟩

/-- A collection is told from its text if each member is told from the text that it begins. -/
theorem map_of_text {α β : Type} {text : List α → List Char} {first : α → List Char} {f : α → β}
    (hnil : text [] = []) (hcons : ∀ a as, text (a :: as) = first a ++ tail text as)
    (hfirst : ∀ a, first a ≠ [])
    (hinj : ∀ a b rest rest', Ends rest → Ends rest' → first a ++ rest = first b ++ rest' →
      f a = f b ∧ rest = rest') {as bs : List α} (h : text as = text bs) :
    as.map f = bs.map f := by
  have hne (a : α) (as : List α) : text (a :: as) ≠ [] := by
    rw [hcons]
    exact List.append_ne_nil_of_left_ne_nil (hfirst a) _
  induction as generalizing bs with
  | nil =>
    cases bs with
    | nil => rfl
    | cons b bs => exact absurd (h.symm.trans hnil) (hne b bs)
  | cons a as ih =>
    cases bs with
    | nil => exact absurd (h.trans hnil) (hne a as)
    | cons b bs =>
      rw [hcons, hcons] at h
      obtain ⟨hhead, htail⟩ := hinj a b _ _ (ends_tail text as) (ends_tail text bs) h
      rw [List.map_cons, List.map_cons, hhead, ih (tail_inj htail)]

/-- The text of a list tells the texts of its items. -/
theorem map_chars_of_listChars {vs ws : List Value} (h : listChars [] vs = listChars [] ws) :
    vs.map chars = ws.map chars :=
  map_of_text rfl listChars_cons chars_ne_nil (fun _ _ _ _ hrest hrest' =>
    chars_append_inj hrest hrest') h

/-- The text of a mapping tells its keys and the texts of its values. -/
theorem map_chars_of_entriesChars {es fs : Entries} (h : entriesChars [] es = entriesChars [] fs) :
    es.map (fun e => (e.1, chars e.2)) = fs.map fun e => (e.1, chars e.2) := by
  refine map_of_text rfl entriesChars_cons (fun _ => List.cons_ne_nil _ _) ?_ h
  intro e f rest rest' hrest hrest' h
  simp only [entryChars, List.append_assoc] at h
  obtain ⟨hkey, hvalue⟩ := stringChars_append_inj h
  obtain ⟨hhead, htail⟩ := chars_append_inj hrest hrest' (List.cons.inj hvalue).2
  rw [String.toList_inj.1 hkey, hhead]
  exact ⟨rfl, htail⟩

/-! ## Texts with their keys in order -/

/-- The text of a value with its mappings in key order. -/
def canonical (v : Value) : List Char := chars (sorted v)

theorem sortedList_eq (vs : List Value) : sortedList vs = vs.map sorted := by
  induction vs with
  | nil => rfl
  | cons v vs ih => rw [sortedList, ih, List.map_cons]

theorem sortedEntries_eq (es : Entries) : sortedEntries es = es.map fun e => (e.1, sorted e.2) := by
  induction es with
  | nil => rfl
  | cons e es ih => rw [sortedEntries, ih, List.map_cons]

theorem canonical_text {s s' : String} (h : canonical (.text s) = canonical (.text s')) :
    s = s' := by
  have hstrings : stringChars s.toList ++ [] = stringChars s'.toList ++ [] := by
    rw [List.append_nil, List.append_nil]
    exact h
  exact String.toList_inj.1 (stringChars_append_inj hstrings).1

theorem canonical_bool {b b' : Bool} (h : canonical (.bool b) = canonical (.bool b')) :
    b = b' := by
  have hinjective : ∀ b b' : Bool, chars (.bool b) = chars (.bool b') → b = b' := by decide
  exact hinjective b b' h

theorem natDigits_injective {m n : Nat} (h : natDigits m = natDigits n) : m = n := by
  have hread := readNat_natDigits m
  rw [h, readNat_natDigits, Option.some.injEq] at hread
  exact hread.symm

theorem natDigits_ne_minus (n : Nat) (cs : List Char) : natDigits n ≠ '-' :: cs := by
  intro h
  have hdigit : isAsciiDigit '-' = true :=
    isAsciiDigit_of_mem_natDigits (n := n) (h ▸ List.mem_cons_self)
  exact absurd hdigit (by decide)

theorem canonical_int {n n' : Int} (h : canonical (.int n) = canonical (.int n')) : n = n' := by
  change intChars n = intChars n' at h
  cases n with
  | ofNat m =>
    cases n' with
    | ofNat m' => rw [natDigits_injective h]
    | negSucc m' => exact absurd h (natDigits_ne_minus m _)
  | negSucc m =>
    cases n' with
    | ofNat m' => exact absurd h.symm (natDigits_ne_minus m' _)
    | negSucc m' =>
      have hsucc := natDigits_injective (List.cons.inj h).2
      rw [Nat.succ.inj hsucc]

/-- No two doubles have the same text. -/
theorem canonical_float {x y : Binary64} (hx : x.IsDouble) (hy : y.IsDouble)
    (h : canonical (.float x) = canonical (.float y)) : x = y := by
  change floatChars x = floatChars y at h
  have hfinite (negative : Bool) (m : Nat) (e : Int) {c : Char} (hc : isNumberChar c = false) :
      c ∉ floatChars (.finite negative m e) := by
    intro hmem
    rw [(finite_chars negative m e).1 c hmem] at hc
    cases hc
  have hnan : 'N' ∈ floatChars .nan := by decide
  have hinfinity : ∀ negative, 'I' ∈ floatChars (.infinity negative) := by decide
  have hwords : ∀ negative, 'N' ∉ floatChars (.infinity negative) := by decide
  cases x with
  | nan =>
    cases y with
    | nan => rfl
    | infinity negative => exact absurd (h ▸ hnan) (hwords negative)
    | finite negative m e => exact absurd (h ▸ hnan) (hfinite negative m e (by decide))
  | infinity negative =>
    cases y with
    | nan => exact absurd (h ▸ hnan) (hwords negative)
    | infinity negative' =>
      have hinjective : ∀ a b, floatChars (.infinity a) = floatChars (.infinity b) → a = b := by
        decide
      rw [hinjective negative negative' h]
    | finite negative' m e =>
      exact absurd (h ▸ hinfinity negative) (hfinite negative' m e (by decide))
  | finite negative m e =>
    cases y with
    | nan => exact absurd (h.symm ▸ hnan) (hfinite negative m e (by decide))
    | infinity negative' =>
      exact absurd (h.symm ▸ hinfinity negative') (hfinite negative m e (by decide))
    | finite negative' m' e' => exact Binary64.chars_injective hx hy h

theorem canonical_list {vs ws : List Value} (h : canonical (.list vs) = canonical (.list ws)) :
    vs.map canonical = ws.map canonical := by
  have hinner := map_chars_of_listChars (List.append_cancel_right (List.cons.inj h).2)
  rw [sortedList_eq, sortedList_eq, List.map_map, List.map_map] at hinner
  exact hinner

/-- The keys of a mapping, with the texts below them. -/
def memberTexts (es : Entries) : List (String × List Char) :=
  es.map fun e => (e.1, canonical e.2)

/-- The text of a mapping tells its members, though not their order. -/
theorem canonical_mapping {es fs : Entries}
    (h : canonical (.mapping es) = canonical (.mapping fs)) :
    (memberTexts es).Perm (memberTexts fs) := by
  have hinner := map_chars_of_entriesChars (List.append_cancel_right (List.cons.inj h).2)
  have hperm (es : Entries) : ((inKeyOrder (sortedEntries es)).map fun e => (e.1, chars e.2)).Perm
      (memberTexts es) := by
    have hmembers : memberTexts es = (sortedEntries es).map fun e => (e.1, chars e.2) := by
      rw [sortedEntries_eq, List.map_map]
      rfl
    rw [hmembers]
    exact (List.mergeSort_perm _ _).map _
  exact (hperm es).symm.trans (hinner ▸ hperm fs)

theorem mem_of_get? {es : Entries} {k : String} {v : Value} (h : es.get? k = some v) :
    (k, v) ∈ es := by
  obtain ⟨⟨key, w⟩, hfind, rfl⟩ := Option.map_eq_some_iff.1 h
  obtain rfl : key = k := by simpa using List.find?_some hfind
  exact List.mem_of_find?_eq_some hfind

/-- The values below one key have the same text. -/
theorem canonical_of_mapping {es fs : Entries}
    (h : canonical (.mapping es) = canonical (.mapping fs)) (keys : List String)
    (hkeys : fs.map (·.1) = keys) (hnodup : keys.Nodup) (k : String)
    {v w : Value} (hv : es.get? k = some v) (hw : fs.get? k = some w) :
    canonical v = canonical w := by
  subst hkeys
  have h := canonical_mapping h
  have hmem : (k, canonical v) ∈ memberTexts fs :=
    h.subset (List.mem_map.2 ⟨(k, v), mem_of_get? hv, rfl⟩)
  obtain ⟨⟨k', w'⟩, hw', heq⟩ := List.mem_map.1 hmem
  rw [Prod.mk.injEq] at heq
  obtain ⟨rfl, heq⟩ := heq
  have hsame : (k', w') = (k', w) := List.inj_on_of_nodup_map hnodup hw' (mem_of_get? hw) rfl
  rw [← heq, (Prod.mk.inj hsame).2]

end RecordQuery.Json
