import Mathlib.Data.List.TakeWhile
import RecordQuery.Store.Table

/-!
# Texts in patterns

A text that is escaped stands for itself in a pattern, whatever marks it holds, but for the case of
its ASCII letters. A null character ends a pattern, with the mark that lets something follow.

* `Like.fits_escape`: an escaped text fits just the texts that differ from it in case alone.
* `Placement.Finds`: where a part lies in a text; `Placement.Sees`: where a store looks for it.
* `Like.accepts_likePattern`: a pattern finds the text that it is made of, with the cases folded or
  not.
* `longText`: a text whose pattern the store does not take.
-/

namespace RecordQuery.Store

namespace Like

/-! ## Letters -/

/-- A capital letter of ASCII moves up by 32 in lower case, every other character stays. -/
theorem toLower_cases (c : Char) :
    (65 ≤ c.toNat ∧ c.toNat ≤ 90 ∧ c.toLower.toNat = c.toNat + 32) ∨
      (¬(65 ≤ c.toNat ∧ c.toNat ≤ 90) ∧ c.toLower = c) := by
  have hrange : (c.val ≥ 'A'.val ∧ c.val ≤ 'Z'.val) ↔ 65 ≤ c.toNat ∧ c.toNat ≤ 90 := by
    rw [ge_iff_le, UInt32.le_iff_toNat_le, UInt32.le_iff_toNat_le]
    rfl
  unfold Char.toLower
  split
  · rename_i h
    obtain ⟨hlow, hhigh⟩ := hrange.1 h
    refine .inl ⟨hlow, hhigh, ?_⟩
    change (c.val + 32).toNat = c.val.toNat + 32
    rw [UInt32.toNat_add]
    refine Nat.mod_eq_of_lt ?_
    change c.val.toNat + 32 < 4294967296
    change c.val.toNat ≤ 90 at hhigh
    omega
  · rename_i h
    exact .inr ⟨fun hin => h (hrange.2 hin), rfl⟩

theorem toLower_idem (c : Char) : c.toLower.toLower = c.toLower := by
  rcases toLower_cases c with ⟨hlow, hhigh, hlower⟩ | ⟨-, hsame⟩
  · rcases toLower_cases c.toLower with ⟨_, _, _⟩ | ⟨-, hsame⟩
    · omega
    · exact hsame
  · rw [hsame, hsame]

/-- The character has no case. -/
def Caseless (c : Char) : Prop :=
  ¬(65 ≤ c.toNat ∧ c.toNat ≤ 90) ∧ ¬(97 ≤ c.toNat ∧ c.toNat ≤ 122)

instance (c : Char) : Decidable (Caseless c) := inferInstanceAs (Decidable (_ ∧ _))

/-- A character without case comes of no other one in lower case. -/
theorem toLower_eq_iff {c d : Char} (hd : Caseless d) : c.toLower = d ↔ c = d := by
  obtain ⟨hupper, hlower⟩ := hd
  rcases toLower_cases c with ⟨hlow, hhigh, hup⟩ | ⟨-, hsame⟩
  · constructor <;> rintro rfl <;> omega
  · rw [hsame]

theorem toLower_mem_marks {c : Char} : c.toLower ∈ marks ↔ c ∈ marks := by
  simp only [marks, List.mem_cons, List.not_mem_nil, or_false]
  rw [toLower_eq_iff (by decide), toLower_eq_iff (by decide), toLower_eq_iff (by decide)]

theorem lowerAscii_idem (cs : List Char) : lowerAscii (lowerAscii cs) = lowerAscii cs := by
  rw [lowerAscii, lowerAscii, List.map_map]
  exact List.map_congr_left fun c _ => toLower_idem c

theorem escape_lowerAscii (cs : List Char) : escape (lowerAscii cs) = lowerAscii (escape cs) := by
  induction cs with
  | nil => rfl
  | cons c cs ih =>
    have ih : escape (cs.map Char.toLower) = (escape cs).map Char.toLower := ih
    by_cases hc : c ∈ marks
    · have hslash : '/'.toLower = '/' := by decide
      simp [lowerAscii, escape, hc, toLower_mem_marks, ih, hslash]
    · simp [lowerAscii, escape, hc, toLower_mem_marks, ih]

/-! ## Null characters -/

theorem untilNull_of_not_mem {cs : List Char} (h : '\x00' ∉ cs) : untilNull cs = cs := by
  refine List.takeWhile_eq_self_iff.2 fun c hc => ?_
  rw [bne_iff_ne]
  rintro rfl
  exact h hc

theorem untilNull_lowerAscii (cs : List Char) :
    untilNull (lowerAscii cs) = lowerAscii (untilNull cs) := by
  have hnull : ((fun c : Char => c != '\x00') ∘ Char.toLower) = fun c => c != '\x00' := by
    funext c
    rw [Function.comp_apply, Bool.eq_iff_iff, bne_iff_ne, bne_iff_ne, ne_eq,
      toLower_eq_iff (by decide)]
  rw [untilNull, lowerAscii, List.takeWhile_map, hnull]
  rfl

theorem null_mem_lowerAscii {cs : List Char} : '\x00' ∈ lowerAscii cs ↔ '\x00' ∈ cs := by
  rw [lowerAscii, List.mem_map]
  constructor
  · rintro ⟨c, hc, hnull⟩
    rwa [(toLower_eq_iff (by decide)).1 hnull] at hc
  · intro h
    exact ⟨_, h, by decide⟩

/-- Marks are no null characters, so that a pattern ends where the text in it does. -/
theorem untilNull_escape_append (cs rest : List Char) :
    untilNull (escape cs ++ rest) =
      if '\x00' ∈ cs then escape (untilNull cs) else escape cs ++ untilNull rest := by
  induction cs with
  | nil => rfl
  | cons c cs ih =>
    by_cases hnull : c = '\x00'
    · subst hnull
      have hmark : '\x00' ∉ marks := by decide
      simp [escape, untilNull, hmark]
    · have hslash : '/' ≠ '\x00' := by decide
      have hmem : '\x00' ∈ c :: cs ↔ '\x00' ∈ cs := by simp [Ne.symm hnull]
      have hcons : untilNull (c :: cs) = c :: untilNull cs := by simp [untilNull, hnull]
      have hrest : List.takeWhile (fun c => c != '\x00') (escape cs ++ rest) =
        untilNull (escape cs ++ rest) := rfl
      by_cases hc : c ∈ marks
      · simp only [escape, if_pos hc, hcons, hmem, List.cons_append]
        rw [untilNull, List.takeWhile_cons_of_pos (by decide),
          List.takeWhile_cons_of_pos (by simpa using hnull), hrest, ih]
        split <;> rfl
      · simp only [escape, if_neg hc, hcons, hmem, List.cons_append]
        rw [untilNull, List.takeWhile_cons_of_pos (by simpa using hnull), hrest, ih]
        split <;> rfl

/-! ## What fits a pattern -/

theorem someEnd_eq_true {p : List Char → Bool} {cs : List Char} :
    someEnd p cs = true ↔ ∃ last, last <:+ cs ∧ p last = true := by
  induction cs with
  | nil => simp [someEnd]
  | cons c cs ih =>
    rw [someEnd, Bool.or_eq_true, ih]
    constructor
    · rintro (h | ⟨last, hlast, h⟩)
      · exact ⟨_, List.suffix_rfl, h⟩
      · exact ⟨last, hlast.trans (List.suffix_cons c cs), h⟩
    · rintro ⟨last, hlast, h⟩
      rcases List.suffix_cons_iff.1 hlast with rfl | hlast
      · exact .inl h
      · exact .inr ⟨last, hlast, h⟩

theorem fits_nil {text : List Char} : fits [] text = true ↔ text = [] := by
  rw [fits, List.isEmpty_iff]

theorem fits_any {ps text : List Char} :
    fits ('%' :: ps) text = true ↔ ∃ last, last <:+ text ∧ fits ps last = true := by
  rw [fits, someEnd_eq_true]

/-- Anything fits a closing wildcard. -/
theorem fits_any_end (text : List Char) : fits ['%'] text = true :=
  fits_any.2 ⟨[], List.nil_suffix, fits_nil.2 rfl⟩

/-- A character that stands for itself. -/
theorem fits_literal {c : Char} {ps text : List Char} :
    fits (escape [c] ++ ps) text = true ↔
      ∃ d rest, text = d :: rest ∧ d.toLower = c.toLower ∧ fits ps rest = true := by
  have hnil : fits (escape [c] ++ ps) [] = false := by
    by_cases hc : c ∈ marks
    · simp [escape, hc, fits]
    · rw [escape, if_neg hc]
      simp only [marks, List.mem_cons, List.not_mem_nil, or_false, not_or] at hc
      simp [escape, fits, hc]
  have hcons : ∀ d rest,
      fits (escape [c] ++ ps) (d :: rest) = (sameLetter c d && fits ps rest) := by
    intro d rest
    by_cases hc : c ∈ marks
    · simp [escape, hc, fits]
    · rw [escape, if_neg hc]
      simp only [marks, List.mem_cons, List.not_mem_nil, or_false, not_or] at hc
      simp [escape, fits, hc]
  cases text with
  | nil => simp [hnil]
  | cons d rest =>
    rw [hcons, Bool.and_eq_true, sameLetter, beq_iff_eq]
    constructor
    · rintro ⟨hsame, hrest⟩
      exact ⟨d, rest, rfl, hsame.symm, hrest⟩
    · rintro ⟨_, _, heq, hsame, hrest⟩
      cases heq
      exact ⟨hsame.symm, hrest⟩

/-- An escaped text takes off a text what differs from it in case alone. -/
theorem fits_escape {cs ps text : List Char} :
    fits (escape cs ++ ps) text = true ↔
      ∃ first rest, text = first ++ rest ∧ lowerAscii first = lowerAscii cs ∧
        fits ps rest = true := by
  induction cs generalizing text with
  | nil =>
    constructor
    · intro h
      exact ⟨[], text, rfl, rfl, h⟩
    · rintro ⟨first, rest, rfl, hfirst, hrest⟩
      obtain rfl := List.map_eq_nil_iff.1 hfirst
      exact hrest
  | cons c cs ih =>
    have hcons : escape (c :: cs) ++ ps = escape [c] ++ (escape cs ++ ps) := by
      by_cases hc : c ∈ marks <;> simp [escape, hc]
    rw [hcons, fits_literal]
    constructor
    · rintro ⟨d, tail, rfl, hd, htail⟩
      obtain ⟨first, rest, rfl, hfirst, hrest⟩ := ih.1 htail
      refine ⟨d :: first, rest, rfl, ?_, hrest⟩
      rw [lowerAscii, List.map_cons, hd]
      exact congrArg _ hfirst
    · rintro ⟨first, rest, rfl, hfirst, hrest⟩
      obtain ⟨d, first, rfl, hd, hfirst⟩ := List.map_eq_cons_iff.1 hfirst
      exact ⟨d, first ++ rest, rfl, hd, ih.2 ⟨first, rest, rfl, hfirst, hrest⟩⟩

theorem prefix_lowerAscii {part text : List Char} :
    lowerAscii part <+: lowerAscii text ↔
      ∃ first rest, text = first ++ rest ∧ lowerAscii first = lowerAscii part := by
  constructor
  · rintro ⟨_, h⟩
    obtain ⟨first, rest, rfl, hfirst, -⟩ := List.map_eq_append_iff.1 h.symm
    exact ⟨first, rest, rfl, hfirst⟩
  · rintro ⟨first, rest, rfl, hfirst⟩
    exact ⟨lowerAscii rest, by rw [← hfirst, lowerAscii, lowerAscii, lowerAscii, List.map_append]⟩

theorem suffix_lowerAscii {part text : List Char} :
    lowerAscii part <:+ lowerAscii text ↔
      ∃ last, last <:+ text ∧ lowerAscii last = lowerAscii part := by
  constructor
  · rintro ⟨_, h⟩
    obtain ⟨first, last, rfl, -, hlast⟩ := List.map_eq_append_iff.1 h.symm
    exact ⟨last, List.suffix_append first last, hlast⟩
  · rintro ⟨last, hlast, hpart⟩
    rw [← hpart]
    exact hlast.map Char.toLower

/-- The whole text differs from the escaped one in case alone. -/
theorem fits_whole {part text : List Char} :
    fits (escape part) text = true ↔ lowerAscii part = lowerAscii text := by
  rw [← List.append_nil (escape part), fits_escape]
  constructor
  · rintro ⟨first, rest, rfl, hfirst, hrest⟩
    rw [fits_nil.1 hrest, List.append_nil, hfirst]
  · intro h
    exact ⟨text, [], (List.append_nil text).symm, h.symm, fits_nil.2 rfl⟩

theorem fits_start {part text : List Char} :
    fits (escape part ++ ['%']) text = true ↔ lowerAscii part <+: lowerAscii text := by
  rw [fits_escape, prefix_lowerAscii]
  simp only [fits_any_end, and_true]

theorem fits_end {part text : List Char} :
    fits ('%' :: escape part) text = true ↔ lowerAscii part <:+ lowerAscii text := by
  rw [fits_any, suffix_lowerAscii]
  simp only [fits_whole, eq_comm (a := lowerAscii part)]

theorem fits_anywhere {part text : List Char} :
    fits ('%' :: escape part ++ ['%']) text = true ↔ lowerAscii part <:+: lowerAscii text := by
  rw [List.cons_append, fits_any, List.infix_iff_prefix_suffix]
  simp only [fits_start]
  constructor
  · rintro ⟨last, hlast, hpart⟩
    exact ⟨lowerAscii last, hpart, hlast.map Char.toLower⟩
  · rintro ⟨_, hpart, _, h⟩
    obtain ⟨first, last, rfl, -, rfl⟩ := List.map_eq_append_iff.1 h.symm
    exact ⟨last, List.suffix_append first last, hpart⟩

end Like

/-! ## Where a part lies -/

namespace Placement

/-- The part lies in the text at its place. -/
def Finds (place : Placement) (part text : List Char) : Prop :=
  match place with
  | .anywhere => part <:+: text
  | .atStart => part <+: text
  | .atEnd => part <:+ text

/-- The part lies in the text at its place, and nothing comes after it. -/
def FindsLast (place : Placement) (part text : List Char) : Prop :=
  match place with
  | .atStart => part = text
  | .anywhere | .atEnd => part <:+ text

/-- Where a store looks for a part. A null character in the part ends the pattern with it, so that
nothing may come after what is before that character. -/
def Sees (place : Placement) (part text : List Char) : Prop :=
  if '\x00' ∈ part then place.FindsLast (Like.untilNull part) text else place.Finds part text

instance (place : Placement) (part text : List Char) : Decidable (place.Finds part text) :=
  match place with
  | .anywhere => inferInstanceAs (Decidable (part <:+: text))
  | .atStart => inferInstanceAs (Decidable (part <+: text))
  | .atEnd => inferInstanceAs (Decidable (part <:+ text))

instance (place : Placement) (part text : List Char) : Decidable (place.FindsLast part text) :=
  match place with
  | .atStart => inferInstanceAs (Decidable (part = text))
  | .anywhere | .atEnd => inferInstanceAs (Decidable (part <:+ text))

instance (place : Placement) (part text : List Char) : Decidable (place.Sees part text) :=
  inferInstanceAs (Decidable (ite _ _ _))

/-- The pattern of a part. -/
def pattern (place : Placement) (part : List Char) : List Char :=
  match place with
  | .anywhere => '%' :: Like.escape part ++ ['%']
  | .atStart => Like.escape part ++ ['%']
  | .atEnd => '%' :: Like.escape part

theorem likePattern_eq (place : Placement) (part : String) :
    Table.likePattern place part = place.pattern part.toList := by
  cases place <;> rfl

theorem lowerAscii_pattern (place : Placement) (part : List Char) :
    Like.lowerAscii (place.pattern part) = place.pattern (Like.lowerAscii part) := by
  have hmark : '%'.toLower = '%' := by decide
  cases place <;>
    simp only [pattern, Like.escape_lowerAscii] <;>
    simp [Like.lowerAscii, hmark]

/-- What the pattern finds, read up to its first null character. -/
theorem fits_pattern (place : Placement) (part text : List Char) :
    Like.fits (Like.untilNull (place.pattern part)) text = true ↔
      place.Sees (Like.lowerAscii part) (Like.lowerAscii text) := by
  have hopen : ∀ ps, Like.untilNull ('%' :: ps) = '%' :: Like.untilNull ps := fun _ => rfl
  have hclosed : Like.untilNull (Like.escape part) = Like.untilNull (Like.escape part ++ []) := by
    rw [List.append_nil]
  by_cases hnull : '\x00' ∈ part
  · rw [Sees, if_pos (Like.null_mem_lowerAscii.2 hnull), Like.untilNull_lowerAscii]
    cases place with
    | anywhere =>
      rw [pattern, List.cons_append, hopen, Like.untilNull_escape_append, if_pos hnull]
      exact Like.fits_end
    | atStart =>
      rw [pattern, Like.untilNull_escape_append, if_pos hnull]
      exact Like.fits_whole
    | atEnd =>
      rw [pattern, hopen, hclosed, Like.untilNull_escape_append, if_pos hnull]
      exact Like.fits_end
  · rw [Sees, if_neg fun h => hnull (Like.null_mem_lowerAscii.1 h)]
    cases place with
    | anywhere =>
      rw [pattern, List.cons_append, hopen, Like.untilNull_escape_append, if_neg hnull]
      exact Like.fits_anywhere
    | atStart =>
      rw [pattern, Like.untilNull_escape_append, if_neg hnull]
      exact Like.fits_start
    | atEnd =>
      rw [pattern, hopen, hclosed, Like.untilNull_escape_append, if_neg hnull]
      exact (iff_of_eq (by rw [Like.untilNull, List.takeWhile_nil, List.append_nil])).trans
        Like.fits_end

end Placement

/-- A pattern finds the text that it is made of, up to the case of ASCII letters, whether or not it
is folded. -/
theorem Like.accepts_likePattern (folded : Bool) (place : Placement) (part : String)
    (text : List Char) :
    accepts folded (Table.likePattern place part) text = true ↔
      place.Sees (lowerAscii part.toList) (lowerAscii (untilNull text)) := by
  rw [Placement.likePattern_eq]
  cases folded with
  | false => exact place.fits_pattern part.toList (untilNull text)
  | true =>
    change fits (untilNull (lowerAscii (place.pattern part.toList))) (untilNull (lowerAscii text))
      = true ↔ _
    rw [place.lowerAscii_pattern, place.fits_pattern, lowerAscii_idem, untilNull_lowerAscii,
      lowerAscii_idem]

/-! ## Long patterns -/

namespace Like

theorem escape_replicate {c : Char} (h : c ∉ marks) (n : Nat) :
    escape (List.replicate n c) = List.replicate n c := by
  induction n with
  | zero => rfl
  | succ n ih => rw [List.replicate_succ, escape, if_neg h, ih]

theorem bytes_append (cs ds : List Char) : bytes (cs ++ ds) = bytes cs + bytes ds := by
  induction cs with
  | nil => simp [bytes]
  | cons c cs ih => rw [List.cons_append, bytes, bytes, ih, Nat.add_assoc]

theorem bytes_replicate (c : Char) (n : Nat) :
    bytes (List.replicate n c) = n * c.utf8Size := by
  induction n with
  | zero => simp [bytes]
  | succ n ih => rw [List.replicate_succ, bytes, ih, Nat.succ_mul, Nat.add_comm]

/-- A text of `n` letters is taken if there is room for two marks around it. -/
theorem takes_replicate (n : Nat) :
    takes (Table.likePattern .anywhere (.ofList (List.replicate n 'x'))) =
      decide (n + 2 ≤ longest) := by
  have hplain : 'x' ∉ marks := by decide
  have hbytes : bytes ('%' :: (List.replicate n 'x' ++ ['%'])) = n + 2 := by
    have hletter : 'x'.utf8Size = 1 := by decide
    have hmark : '%'.utf8Size = 1 := by decide
    rw [bytes, bytes_append, bytes_replicate, bytes, bytes, hletter, hmark]
    omega
  rw [takes, Table.likePattern, String.toList_ofList, escape_replicate hplain]
  exact congrArg (fun k => decide (k ≤ longest)) hbytes

end Like

/-- A text that is too long for the store by one letter. -/
def longText : String := .ofList (List.replicate 49999 'x')

theorem longText_refused : Like.takes (Table.likePattern .anywhere longText) = false :=
  (Like.takes_replicate 49999).trans (by decide)

theorem longText_length : longText.toList.length = 49999 := by
  have hlength (n : Nat) : (String.ofList (List.replicate n 'x')).toList.length = n := by simp
  exact hlength 49999

theorem longText_ne : longText ≠ "" := by
  intro h
  have hlength := longText_length
  rw [h] at hlength
  cases hlength

end RecordQuery.Store
