import RecordQuery.Proofs.RoundTrip
import RecordQuery.Request.Params

/-!
# What cursors are accepted

Whoever sends a text as a cursor gets a position for it only if the text is a token of three parts
that is signed under a key of the secret, and if its claims are those of a cursor of the order.

* `Token.Signed`: the token is signed and holds these claims.
* `Cursor.Tagged`: the value that a tagged pair stands for.
* `Cursor.ClaimsOf`: the claims are those of a cursor of an order, with this position.
* `Cursor.sortText_injective`: orders over plain fields have different texts.
* `Cursor.accepted_as_minted`: what is accepted, and that a cursor of one order is refused under
  another one.
-/

namespace RecordQuery

open RecordQuery.Number RecordQuery.Calendar

namespace Text

theorem cutAt_of_not_mem {sep : Char} {cs : List Char} (h : sep ∉ cs) :
    cutAt sep cs = (cs, none) := by
  have hall : ∀ c ∈ cs, (c != sep) = true := by
    intro c hc
    rw [bne_iff_ne]
    rintro rfl
    exact h hc
  simp only [cutAt, Number.span_all hall]

/-- A text is cut at the first separator. -/
theorem cutAt_eq_some_iff {sep : Char} {cs before after : List Char} :
    cutAt sep cs = (before, some after) ↔ sep ∉ before ∧ cs = before ++ sep :: after := by
  constructor
  · intro h
    by_cases hmem : sep ∈ cs
    · obtain ⟨init, rest, rfl, hinit⟩ := List.eq_append_cons_of_mem hmem
      rw [cutAt_append hinit, Prod.mk.injEq, Option.some.injEq] at h
      obtain ⟨rfl, rfl⟩ := h
      exact ⟨hinit, rfl⟩
    · rw [cutAt_of_not_mem hmem] at h
      cases h
  · rintro ⟨hbefore, rfl⟩
    exact cutAt_append hbefore after

/-- What stands before the first separator, and whether and what stands after it, can be told from
the text. -/
theorem append_sep_inj {sep : Char} {as bs as' bs' : List Char} (has : sep ∉ as) (has' : sep ∉ as')
    (h : as ++ sep :: bs = as' ++ sep :: bs') : as = as' ∧ bs = bs' := by
  have hcut := cutAt_append has bs
  rw [h, cutAt_append has', Prod.mk.injEq, Option.some.injEq] at hcut
  exact ⟨hcut.1.symm, hcut.2.symm⟩

end Text

/-! ## Signed tokens -/

namespace Token

open RecordQuery.Digest

theorem cutAtLast_eq_some_iff {cs before after : List Char} :
    cutAtLast cs = some (before, after) ↔ '.' ∉ after ∧ cs = before ++ '.' :: after := by
  constructor
  · intro h
    unfold cutAtLast at h
    split at h
    · rename_i a b hcut
      obtain ⟨hmem, hcs⟩ := Text.cutAt_eq_some_iff.1 hcut
      rw [Option.some.injEq, Prod.mk.injEq] at h
      obtain ⟨rfl, rfl⟩ := h
      refine ⟨by simpa using hmem, ?_⟩
      simpa using congrArg List.reverse hcs
    · cases h
  · rintro ⟨hafter, rfl⟩
    exact cutAtLast_append before hafter

/-- A token has three parts. -/
theorem parts?_eq_some_iff {token : List Char} {p : Parts} : parts? token = some p ↔
    token = p.header ++ '.' :: p.claims ++ '.' :: p.signature ∧
      p.signed = p.header ++ '.' :: p.claims ∧ '.' ∉ p.header ∧ '.' ∉ p.signature := by
  constructor
  · intro h
    simp only [parts?, bind, Option.bind_eq_some_iff, Prod.exists] at h
    obtain ⟨signed, signature, hlast, h⟩ := h
    obtain ⟨hsignature, rfl⟩ := cutAtLast_eq_some_iff.1 hlast
    split at h
    · rename_i header claims hcut
      obtain ⟨hheader, rfl⟩ := Text.cutAt_eq_some_iff.1 hcut
      obtain rfl := Option.some.inj h
      exact ⟨rfl, rfl, hheader, hsignature⟩
    · cases h
  · obtain ⟨signed, header, claims, signature⟩ := p
    rintro ⟨htoken, hsigned, hheader, hsignature⟩
    simp only at htoken hsigned hheader hsignature
    subst htoken hsigned
    simp only [parts?, cutAtLast_append _ hsignature, Text.cutAt_append hheader, bind,
      Option.bind, pure]

/-- A token of three parts: a header that names the algorithm, a payload that holds the claims, and
the signature of both under a key of the secret. -/
inductive Signed (secret : List Char) (claims : Entries) : List Char → Prop where
  | intro {header payload signature : List Char} {key : Bytes} {entries : Entries}
      (header_plain : '.' ∉ header) (signature_plain : '.' ∉ signature)
      (header_holds : mappingOf header = .ok entries)
      (algorithm_named : entries.get? "alg" = some (.text algorithm))
      (payload_holds : mappingOf payload = .ok claims)
      (usable : key ∈ usableKeys secret)
      (signs : Base64.decode? signature = some (Token.signature key (header ++ '.' :: payload))) :
      Signed secret claims (header ++ '.' :: payload ++ '.' :: signature)

/-- A part that holds a mapping is written in Base64. -/
theorem decode?_of_mappingOf {part : List Char} {entries : Entries}
    (h : mappingOf part = .ok entries) : ∃ bytes, Base64.decode? part = some bytes := by
  obtain ⟨bytes, hbytes, -⟩ := bind_eq_ok.1 h
  exact ⟨bytes, present_eq_ok.1 hbytes⟩

/-- The claims of exactly the signed tokens are looked at. -/
theorem verified_eq_ok_iff {secret token : List Char} {claims : Entries} :
    verified secret token = .ok claims ↔ Signed secret claims token := by
  constructor
  · intro hverified
    obtain ⟨p, hparts, h⟩ := bind_eq_ok.1 hverified
    obtain ⟨entries, hentries, h⟩ := bind_eq_ok.1 h
    obtain ⟨alg, halg, h⟩ := bind_eq_ok.1 h
    obtain ⟨rfl, hsigned, hheader, hsignature⟩ := parts?_eq_some_iff.1 (present_eq_ok.1 hparts)
    split at h
    · cases h
    · rename_i hnamed
      rw [Bool.not_eq_true', Bool.not_eq_false, Cursor.eqv_text_iff] at hnamed
      obtain ⟨_, -, h⟩ := bind_eq_ok.1 h
      obtain ⟨bytes, hbytes, h⟩ := bind_eq_ok.1 h
      obtain ⟨⟨⟩, hfits, hclaims⟩ := bind_eq_ok.1 h
      obtain ⟨key, hkey, hsigns⟩ := (fits_iff _).1 hfits
      rw [hsigned] at hsigns
      exact .intro hheader hsignature hentries (hnamed ▸ present_eq_ok.1 halg) hclaims hkey
        (hsigns ▸ present_eq_ok.1 hbytes)
  · rintro ⟨hheader, hsignature, hentries, halg, hclaims, hkey, hsigns⟩
    rename_i header payload signature key entries
    have hparts : parts? (header ++ '.' :: payload ++ '.' :: signature)
        = some ⟨header ++ '.' :: payload, header, payload, signature⟩ :=
      parts?_eq_some_iff.2 ⟨rfl, rfl, hheader, hsignature⟩
    obtain ⟨bytes, hbytes⟩ := decode?_of_mappingOf hclaims
    have hfits : fits (header ++ '.' :: payload)
        (Token.signature key (header ++ '.' :: payload)) (keys secret) = .ok () :=
      (fits_iff _).2 ⟨key, hkey, rfl⟩
    have heqv := Cursor.eqv_text_self algorithm
    simp only [verified, hparts, present_some, hentries, halg, heqv, hbytes, hsigns, hfits,
      Bool.not_true, Bool.false_eq_true, if_false, hclaims, bind, Except.bind]

theorem read_eq_ok_iff {secret token : List Char} {now : Int} {claims : Entries} :
    read secret now token = .ok claims ↔
      Signed secret claims token ∧ checkClaims now claims = .ok () := by
  rw [← verified_eq_ok_iff]
  constructor
  · intro h
    obtain ⟨entries, hverified, h⟩ := bind_eq_ok.1 h
    obtain ⟨⟨⟩, hcheck, h⟩ := bind_eq_ok.1 h
    obtain rfl := pure_eq_ok.1 h
    exact ⟨hverified, hcheck⟩
  · rintro ⟨hverified, hcheck⟩
    exact bind_eq_ok.2 ⟨claims, hverified, bind_eq_ok.2 ⟨(), hcheck, rfl⟩⟩

/-- A secret that is no JSON text is the only key of its own. -/
theorem usableKeys_of_not_json {secret : List Char} (h : heldBy? secret = none) :
    usableKeys secret = [utf8Encode secret] := by
  simp [usableKeys, keys_of_not_json h, usable]

end Token

namespace Cursor

/-! ## Claims of a cursor -/

/-- A pair of a tag and what stands beside it, and the value that the pair stands for. -/
inductive Tagged : Value → Value → Prop where
  | absent (raw : Value) : Tagged (.list [.text "n", raw]) .null
  | plain {name : String} (h : name ∈ ["b", "i", "f", "s"]) (raw : Value) :
      Tagged (.list [.text name, raw]) raw
  | decimal {raw : Value} {d : Decimal} (h : decimalOf raw = .ok d) :
      Tagged (.list [.text "d", raw]) (.decimal d)
  | datetime {s : String} {t : DateTime} (h : Iso.readDateTime? s.toList = some t) :
      Tagged (.list [.text "dt", .text s]) (.datetime t)
  | date {s : String} {d : Date} (h : Iso.readDate? s.toList = some d) :
      Tagged (.list [.text "da", .text s]) (.date d)
  | uuid {s : String} {u : Uuid} (h : Uuid.read? s.toList = some u) :
      Tagged (.list [.text "u", .text s]) (.uuid u)

theorem found_eq_ok_iff {α : Type} {o : Option α} {a : α} : found o = .ok a ↔ o = some a := by
  cases o <;> simp [found]

theorem found_text_eq_ok_iff {α : Type} {raw : Value} {reader : String → Option α}
    {wrap : α → Value} {v : Value} :
    found ((raw.text?.bind reader).map wrap) = .ok v ↔
      ∃ s a, raw = .text s ∧ reader s = some a ∧ v = wrap a := by
  rw [found_eq_ok_iff]
  cases raw <;> simp [Value.text?, eq_comm]

theorem map_eq_ok_iff {ε α β : Type} {e : Except ε α} {f : α → β} {b : β} :
    e.map f = .ok b ↔ ∃ a, e = .ok a ∧ b = f a := by
  cases e <;> simp [Except.map, eq_comm]

theorem untagAs_eq_ok_iff {name : String} {raw v : Value} :
    untagAs name raw = .ok v ↔ Tagged (.list [.text name, raw]) v := by
  constructor
  · intro h
    unfold untagAs at h
    split at h
    · cases h
      exact .absent raw
    · cases h
      exact .plain (by simp) raw
    · cases h
      exact .plain (by simp) raw
    · cases h
      exact .plain (by simp) raw
    · cases h
      exact .plain (by simp) raw
    · obtain ⟨d, hd, rfl⟩ := map_eq_ok_iff.1 h
      exact .decimal hd
    · obtain ⟨s, t, rfl, ht, rfl⟩ := found_text_eq_ok_iff.1 h
      exact .datetime ht
    · obtain ⟨s, d, rfl, hd, rfl⟩ := found_text_eq_ok_iff.1 h
      exact .date hd
    · obtain ⟨u, hu, rfl⟩ := map_eq_ok_iff.1 h
      cases raw with
      | text s => exact .uuid (found_eq_ok_iff.1 hu)
      | _ => cases hu
    · cases h
  · rintro (_ | ⟨hname, _⟩ | hd | ht | hd | hu)
    · rfl
    · simp only [List.mem_cons, List.not_mem_nil, or_false] at hname
      rcases hname with rfl | rfl | rfl | rfl <;> rfl
    · exact map_eq_ok_iff.2 ⟨_, hd, rfl⟩
    · exact found_text_eq_ok_iff.2 ⟨_, _, rfl, ht, rfl⟩
    · exact found_text_eq_ok_iff.2 ⟨_, _, rfl, hd, rfl⟩
    · exact map_eq_ok_iff.2 ⟨_, found_eq_ok_iff.2 hu, rfl⟩

/-- Exactly the tagged pairs are read. -/
theorem untag_eq_ok_iff {pair v : Value} : untag pair = .ok v ↔ Tagged pair v := by
  constructor
  · intro h
    unfold untag at h
    split at h
    · exact untagAs_eq_ok_iff.1 h
    · cases h
  · intro h
    have hpair : ∃ name raw, pair = .list [.text name, raw] := by
      cases h <;> exact ⟨_, _, rfl⟩
    obtain ⟨name, raw, rfl⟩ := hpair
    exact untagAs_eq_ok_iff.2 h

theorem untagAll_eq_ok_iff {pairs values : List Value} :
    untagAll pairs = .ok values ↔ List.Forall₂ Tagged pairs values := by
  induction pairs generalizing values with
  | nil => cases values <;> simp [untagAll]
  | cons pair pairs ih =>
    constructor
    · intro h
      simp only [untagAll, bind, Except.bind] at h
      split at h
      · cases h
      · rename_i v hv
        split at h
        · cases h
        · rename_i rest hrest
          cases h
          exact .cons (untag_eq_ok_iff.1 hv) (ih.1 hrest)
    · rintro (_ | ⟨hv, hrest⟩)
      simp only [untagAll, bind, Except.bind, untag_eq_ok_iff.2 hv, ih.2 hrest]
      rfl

/-- The claims are those of a cursor of this order, and its tagged pairs stand for the values. -/
structure ClaimsOf (sort : List SortCriterion) (values : List Value) (claims : Entries) : Prop where
  current : claims.get? "v" = some (.text version)
  order : claims.get? "s" = some (.text (signature sort))
  keys : ∃ pairs, claims.get? "k" = some (.list pairs) ∧ pairs.length = sort.length ∧
    List.Forall₂ Tagged pairs values

theorem eqv_getD_iff {o : Option Value} {s : String} :
    (o.getD .null).eqv (.text s) = true ↔ o = some (.text s) := by
  rw [eqv_text_iff]
  cases o <;> simp

theorem position_eq_ok_iff {sort : List SortCriterion} {claims : Entries} {values : List Value} :
    position sort claims = .ok values ↔ ClaimsOf sort values claims := by
  constructor
  · intro h
    simp only [position] at h
    split at h
    · cases h
    · rename_i hv
      split at h
      · cases h
      · rename_i hs
        rw [Bool.not_eq_true', Bool.not_eq_false, eqv_getD_iff] at hv hs
        split at h
        · rename_i pairs hk
          split at h
          · rename_i hlength
            refine ⟨hv, hs, pairs, ?_, hlength, untagAll_eq_ok_iff.1 h⟩
            cases hget : claims.get? "k" with
            | none => simp [hget] at hk
            | some k => simpa [hget] using hk
          · cases h
        · cases h
  · rintro ⟨hv, hs, pairs, hk, hlength, hpairs⟩
    simp [position, hv, hs, hk, eqv_text_self, hlength, untagAll_eq_ok_iff.2 hpairs]

/-- A position is given for exactly the signed claims of a cursor of the order. -/
theorem decode_eq_ok_iff {secret : Option String} {now : Int} {token : String}
    {sort : List SortCriterion} {values : List Value} :
    decode secret now token sort = .ok values ↔
      ∃ claims, Token.Signed (effectiveSecret secret) claims (Text.trimChars token.toList) ∧
        Token.checkClaims now claims = .ok () ∧ ClaimsOf sort values claims := by
  unfold decode
  split
  · rename_i hempty
    constructor
    · intro h
      cases h
    · rintro ⟨claims, hsigned, -⟩
      rw [hempty] at hsigned
      generalize hcs : ([] : List Char) = cs at hsigned
      cases hsigned
      simp at hcs
  · constructor
    · intro h
      split at h
      · rename_i claims hread
        obtain ⟨hsigned, hcheck⟩ := Token.read_eq_ok_iff.1 hread
        exact ⟨claims, hsigned, hcheck, position_eq_ok_iff.1 h⟩
      · cases h
      · cases h
    · rintro ⟨claims, hsigned, hcheck, hclaims⟩
      rw [Token.read_eq_ok_iff.2 ⟨hsigned, hcheck⟩]
      exact position_eq_ok_iff.2 hclaims

/-! ## Texts of orders -/

/-- The names of the fields are of letters, digits, underlines and points. -/
def PlainFields (sort : List SortCriterion) : Prop :=
  ∀ s ∈ sort, ∀ c ∈ s.field.toList, isFieldChar c = true

theorem plainFields_iff {sort : List SortCriterion} :
    PlainFields sort ↔ (sort.all fun s => s.field.toList.all isFieldChar) = true := by
  simp [PlainFields]

/-- A criterion as a text. -/
def criterionText (s : SortCriterion) : List Char :=
  s.field.toList ++ ':' :: s.direction.name.toList

theorem marks_not_mem_criterionText {s : SortCriterion}
    (h : ∀ c ∈ s.field.toList, isFieldChar c = true) :
    ':' ∉ s.field.toList ∧ '|' ∉ criterionText s := by
  have hfield {c : Char} (hc : isFieldChar c = false) : c ∉ s.field.toList :=
    fun hmem => Bool.eq_false_iff.1 hc (h c hmem)
  refine ⟨hfield (by decide), ?_⟩
  simp only [criterionText, List.mem_append, List.mem_cons, not_or]
  refine ⟨hfield (by decide), by decide, ?_⟩
  cases s.direction <;> decide

theorem direction_of_name {d d' : Direction} (h : d.name.toList = d'.name.toList) : d = d' := by
  revert h
  cases d <;> cases d' <;> decide

theorem criterionText_injective {s s' : SortCriterion}
    (h : ∀ c ∈ s.field.toList, isFieldChar c = true)
    (h' : ∀ c ∈ s'.field.toList, isFieldChar c = true)
    (htext : criterionText s = criterionText s') : s = s' := by
  obtain ⟨hfield, hname⟩ := Text.append_sep_inj (marks_not_mem_criterionText h).1
    (marks_not_mem_criterionText h').1 htext
  have hdirection := direction_of_name hname
  cases s
  cases s'
  exact SortCriterion.mk.injEq .. ▸ ⟨String.toList_injective hfield, hdirection⟩

/-- What follows the first criterion in the text of an order. -/
def afterFirst (sort : List SortCriterion) : List Char :=
  if sort = [] then [] else '|' :: sortText sort

theorem sortText_cons (s : SortCriterion) (sort : List SortCriterion) :
    sortText (s :: sort) = criterionText s ++ afterFirst sort := by
  cases sort with
  | nil => simp [sortText, criterionText, afterFirst, Text.intercalate]
  | cons s' sort => simp [sortText, criterionText, afterFirst, Text.intercalate]

theorem sortText_cons_ne_nil (s : SortCriterion) (sort : List SortCriterion) :
    sortText (s :: sort) ≠ [] := by
  simp [sortText_cons, criterionText]

/-- The text of an order over plain fields tells the order. -/
theorem sortText_injective {sort other : List SortCriterion} (hsort : PlainFields sort)
    (hother : PlainFields other) (h : sortText sort = sortText other) : sort = other := by
  induction sort generalizing other with
  | nil =>
    cases other with
    | nil => rfl
    | cons s other => exact absurd h.symm (sortText_cons_ne_nil s other)
  | cons s sort ih =>
    cases other with
    | nil => exact absurd h (sortText_cons_ne_nil s sort)
    | cons s' other =>
      obtain ⟨hs, hrest⟩ := List.forall_mem_cons.1 hsort
      obtain ⟨hs', hrest'⟩ := List.forall_mem_cons.1 hother
      have hmark := (marks_not_mem_criterionText hs).2
      have hmark' := (marks_not_mem_criterionText hs').2
      rw [sortText_cons, sortText_cons] at h
      -- A mark follows the first criterion unless the order ends there.
      have hparts : criterionText s = criterionText s' ∧ sort = other := by
        by_cases hnil : sort = [] <;> by_cases hnil' : other = []
        · subst hnil hnil'
          exact ⟨by simpa [afterFirst] using h, rfl⟩
        · rw [afterFirst, if_pos hnil, List.append_nil, afterFirst, if_neg hnil'] at h
          exact absurd (h ▸ List.mem_append_right _ List.mem_cons_self) hmark
        · rw [afterFirst, if_neg hnil, afterFirst, if_pos hnil', List.append_nil] at h
          exact absurd (h ▸ List.mem_append_right _ List.mem_cons_self) hmark'
        · rw [afterFirst, if_neg hnil, afterFirst, if_neg hnil'] at h
          obtain ⟨hfirst, hafter⟩ := Text.append_sep_inj hmark hmark' h
          exact ⟨hfirst, ih hrest hrest' hafter⟩
      rw [criterionText_injective hs hs' hparts.1, hparts.2]

/-! ## Acceptance -/

/-- A cursor is accepted if and only if it is a token that is signed under a key of the secret and
its claims are those of a cursor of the order. A cursor of another order over plain fields is
refused as one, unless the secret does not even honour it. A secret that is no JSON text is its own
key, and honours what it signs. -/
theorem accepted_as_minted (secret : Option String) (now : Int) (sort : List SortCriterion) :
    (∀ token values, decode secret now token sort = .ok values ↔
      ∃ claims, Token.Signed (effectiveSecret secret) claims (Text.trimChars token.toList) ∧
        Token.checkClaims now claims = .ok () ∧ ClaimsOf sort values claims) ∧
    (∀ other values, PlainFields sort → PlainFields other → sort ≠ other →
      (signature sort = signature other → sortText sort = sortText other) →
      (∀ v ∈ values, Writable v) →
      ((decode secret now (encode secret values sort) other).mapError CursorError.message
          = .error "cursor does not match sort" ↔
        Token.Honours (effectiveSecret secret) (claims values sort))) ∧
    (Token.heldBy? (effectiveSecret secret) = none →
      Token.usableKeys (effectiveSecret secret) = [Digest.utf8Encode (effectiveSecret secret)] ∧
        ∀ claims, Token.Honours (effectiveSecret secret) claims) := by
  refine ⟨fun token values => decode_eq_ok_iff, ?_, fun h =>
    ⟨Token.usableKeys_of_not_json h, Token.honours_of_keys (Token.keys_of_not_json h)⟩⟩
  intro other values hsort hother hne hcollision hwritable
  have hreadable : ∀ v ∈ values, Json.Readable tagRoom (tag v) :=
    fun v hv => (hwritable v hv).readable_tag _
  have hdigest : signature sort ≠ signature other :=
    fun h => hne (sortText_injective hsort hother (hcollision h))
  by_cases hhonours : Token.Honours (effectiveSecret secret) (claims values sort)
  · rw [decode_encode_eq hhonours hreadable, position_claims_of_ne hdigest]
    exact ⟨fun _ => hhonours, fun _ => rfl⟩
  · obtain ⟨e, he, hdecode⟩ := decode_encode_of_not hhonours hreadable now other
    rw [hdecode]
    constructor
    · intro h
      cases e with
      | otherSort => exact absurd rfl he
      | invalid => exact absurd (Except.error.inj h) (by decide)
      | fault f =>
        have hmessage : "invalid cursor" = "cursor does not match sort" := Except.error.inj h
        exact absurd hmessage (by decide)
    · intro h
      exact absurd h hhonours

/-! ## One order and the beginning of it -/

def titleThenYear : List SortCriterion := [⟨"title", .asc⟩, ⟨"release.year", .desc⟩]

def title : List SortCriterion := [⟨"title", .asc⟩]

def titleKeys : List Value := [.text "Alien|year:asc", .int 1979]

theorem titleThenYear_accepted_as_minted :
    Token.heldBy? (effectiveSecret (some "s1")) = none ∧
    (∃ claims, Token.Signed (effectiveSecret (some "s1")) claims
        (Text.trimChars (encode (some "s1") titleKeys titleThenYear).toList) ∧
      Token.checkClaims 0 claims = .ok () ∧ ClaimsOf titleThenYear titleKeys claims) ∧
    PlainFields titleThenYear ∧ PlainFields title ∧ titleThenYear ≠ title ∧
    (signature titleThenYear = signature title → sortText titleThenYear = sortText title) ∧
    (∀ v ∈ titleKeys, Writable v) ∧
    (decode (some "s1") 0 (encode (some "s1") titleKeys titleThenYear) title).mapError
      CursorError.message = .error "cursor does not match sort" := by
  have hsecret : Token.heldBy? (effectiveSecret (some "s1")) = none := by decide +kernel
  have hwritable : ∀ v ∈ titleKeys, Writable v := by
    simp only [titleKeys, List.forall_mem_cons, Writable]
    exact ⟨trivial, by decide +kernel, by simp⟩
  have hportable : ∀ v ∈ titleKeys, Portable v := by
    simp only [titleKeys, List.forall_mem_cons, Portable]
    exact ⟨trivial, by decide +kernel, by simp⟩
  have hown : decode (some "s1") 0 (encode (some "s1") titleKeys titleThenYear) titleThenYear
      = .ok titleKeys :=
    decode_encode (Token.honours_of_keys (Token.keys_of_not_json hsecret) _) hportable rfl 0
  have hplain : PlainFields titleThenYear := plainFields_iff.2 (by decide +kernel)
  have hplain' : PlainFields title := plainFields_iff.2 (by decide +kernel)
  have hdigest : signature titleThenYear ≠ signature title := by decide +kernel
  obtain ⟨haccepted, hrefused, hhonours⟩ := accepted_as_minted (some "s1") 0 titleThenYear
  exact ⟨hsecret, (haccepted _ _).1 hown, hplain, hplain', by decide, fun h => absurd h hdigest,
    hwritable, (hrefused title titleKeys hplain hplain' (by decide) (fun h => absurd h hdigest)
      hwritable).2 ((hhonours hsecret).2 _)⟩

end Cursor
end RecordQuery
