import RecordQuery.Proofs.Bytes
import RecordQuery.Proofs.JsonText
import RecordQuery.Token

/-!
# Signed tokens are read back

* `Token.Honours`: the signature of a secret is found again among those of its keys. A secret that
  is no JSON text is its own key, by `Token.keys_of_not_json`.
* `Token.read_sign`: the reader of a token gets the claims that were signed, if the secret honours
  them, and `Token.read_sign_of_not`: else none.
* `Token.plain_of_mem_sign`: the characters of a token.
-/

namespace RecordQuery

namespace Text

theorem cutAt_append {sep : Char} {before : List Char} (h : sep ∉ before) (after : List Char) :
    cutAt sep (before ++ sep :: after) = (before, some after) := by
  have hall : ∀ c ∈ before, (c != sep) = true := by
    intro c hc
    rw [bne_iff_ne]
    rintro rfl
    exact h hc
  have hsep : ∀ c ∈ (sep :: after).head?, (c != sep) = false := by simp
  have hspan := Number.span_append (· != sep) before hsep
  rw [Number.span_all hall] at hspan
  simp only [cutAt, hspan, List.nil_append]

end Text

namespace Token

open RecordQuery.Digest

theorem cutAtLast_append (before : List Char) {after : List Char} (h : '.' ∉ after) :
    cutAtLast (before ++ '.' :: after) = some (before, after) := by
  have hreverse : '.' ∉ after.reverse := by simpa using h
  have hcut := Text.cutAt_append hreverse before.reverse
  simp only [cutAtLast, List.reverse_append, List.reverse_cons, List.append_assoc,
    List.singleton_append, hcut, List.reverse_reverse]

theorem point_not_mem_segment (cs : List Char) : '.' ∉ segment cs :=
  fun h => (Base64.plain_of_mem_encode h).1 rfl

/-- A token falls into the parts that it was made of. -/
theorem parts?_eq (header claims : List Char) (bytes : Bytes) :
    parts? (segment header ++ '.' :: segment claims ++ '.' :: Base64.encode bytes)
      = some {
        signed := segment header ++ '.' :: segment claims
        header := segment header
        claims := segment claims
        signature := Base64.encode bytes } := by
  have hpoint : '.' ∉ Base64.encode bytes := fun h => (Base64.plain_of_mem_encode h).1 rfl
  have hlast := cutAtLast_append (segment header ++ '.' :: segment claims) hpoint
  have hfirst := Text.cutAt_append (point_not_mem_segment header) (segment claims)
  simp only [parts?, hlast, bind, Option.bind, hfirst, pure]

@[simp]
theorem present_some {α : Type} (a : α) : present (some a) = .ok a := rfl

theorem present_eq_ok {α : Type} {x : Option α} {a : α} : present x = .ok a ↔ x = some a := by
  cases x <;> simp [present]

theorem mappingOf_segment {entries : Entries}
    (h : Json.Readable callRoom (.mapping entries)) :
    mappingOf (segment (Json.chars (.mapping entries))) = .ok entries := by
  simp only [mappingOf, segment, Base64.decode?_encode, utf8Decode?_utf8Encode, present_some,
    Json.load_chars h, bind, Except.bind]
  rfl

theorem readable_header : Json.Readable callRoom (.mapping header) := by
  refine ⟨⟨trivial, trivial, trivial⟩, ?_⟩
  simp [header]

/-! ## Keys -/

/-- The keys before one that is unusable. -/
def usable : List (Except Error Bytes) → List Bytes
  | .ok key :: rest => key :: usable rest
  | _ => []

/-- The keys that are tried on a signature. -/
def usableKeys (secret : List Char) : List Bytes := usable (keys secret)

theorem fits_iff {signed : List Char} {bytes : Bytes} (tried : List (Except Error Bytes)) :
    fits signed bytes tried = .ok () ↔ ∃ key ∈ usable tried, signature key signed = bytes := by
  induction tried with
  | nil => simp [fits, usable]
  | cons key tried ih =>
    cases key with
    | error e => simp [fits, usable]
    | ok key => by_cases hsigns : signature key signed = bytes <;> simp [fits, usable, hsigns, ih]

/-- What ends the search for a key is in the place of one. -/
theorem error_mem_of_fits {signed : List Char} {bytes : Bytes} {f : Fault}
    {tried : List (Except Error Bytes)} (h : fits signed bytes tried = .error (.fault f)) :
    .error (.fault f) ∈ tried := by
  induction tried with
  | nil => cases h
  | cons key tried ih =>
    cases key with
    | error e =>
      cases h
      exact List.mem_cons_self
    | ok key =>
      rw [fits] at h
      split at h
      · cases h
      · exact List.mem_cons_of_mem _ (ih h)

/-- A secret that is no JSON text is its own key. -/
theorem keys_of_not_json {secret : List Char} (h : heldBy? secret = none) :
    keys secret = [.ok (utf8Encode secret)] := by
  simp only [keys, h]

/-- A secret in quotes is not: it signs with its quotes, and is checked without them. -/
example : keys "\"abc\"".toList = [.ok (utf8Encode "abc".toList)] := by decide +kernel

/-! ## Signed claims -/

/-- The part of a token that is signed. -/
def signedPart (claims : Entries) : List Char :=
  segment (Json.chars (.mapping header)) ++ '.' :: segment (Json.chars (.mapping claims))

/-- What a secret signs is checked under its keys, and one of them gives the same signature. -/
def Honours (secret : List Char) (claims : Entries) : Prop :=
  ∃ key ∈ usableKeys secret,
    signature key (signedPart claims) = signature (utf8Encode secret) (signedPart claims)

/-- A secret that is its own key honours what it signs. -/
theorem honours_of_keys {secret : List Char} (h : keys secret = [.ok (utf8Encode secret)])
    (claims : Entries) : Honours secret claims := by
  refine ⟨utf8Encode secret, ?_, rfl⟩
  simp [usableKeys, h, usable]

section Signed

variable {claims : Entries} (hreadable : Json.Readable callRoom (.mapping claims))
  {secret : List Char}

include hreadable

theorem verified_sign : verified secret (sign secret claims) =
    (fits (signedPart claims) (signature (utf8Encode secret) (signedPart claims))
      (keys secret)).map fun _ => claims := by
  have halg : (header.get? "alg") = some (.text algorithm) := rfl
  have heqv : (Value.text algorithm).eqv (.text algorithm) = true := by decide +kernel
  have hclaims : Base64.decode? (segment (Json.chars (.mapping claims))) =
      some (utf8Encode (Json.chars (.mapping claims))) := Base64.decode?_encode _
  simp only [verified, sign, parts?_eq, present_some, mappingOf_segment readable_header, halg, heqv,
    Base64.decode?_encode, mappingOf_segment hreadable, hclaims, bind, Except.bind]
  unfold signedPart
  cases fits _ _ (keys secret) <;> rfl

/-- The reader gets the claims that were signed, if the secret honours them. -/
theorem read_sign (hhonours : Honours secret claims) {now : Int}
    (hclaims : checkClaims now claims = .ok ()) :
    read secret now (sign secret claims) = .ok claims := by
  simp only [read, verified_sign hreadable, (fits_iff _).2 hhonours, Except.map, hclaims, bind,
    Except.bind]
  rfl

/-- Claims that the secret does not honour are not read. -/
theorem read_sign_of_not (hhonours : ¬ Honours secret claims) (now : Int) :
    ∃ e, read secret now (sign secret claims) = .error e := by
  cases hfits : fits (signedPart claims) (signature (utf8Encode secret) (signedPart claims))
      (keys secret) with
  | ok => exact absurd ((fits_iff _).1 hfits) hhonours
  | error e => exact ⟨e, by rw [read, verified_sign hreadable, hfits]; rfl⟩

end Signed

theorem plain_of_mem_sign {secret : List Char} {claims : Entries} {c : Char}
    (h : c ∈ sign secret claims) : c = '.' ∨ ∃ bytes, c ∈ Base64.encode bytes := by
  simp only [sign, segment, List.mem_append, List.mem_cons] at h
  rcases h with (h | rfl | h) | rfl | h
  · exact .inr ⟨_, h⟩
  · exact .inl rfl
  · exact .inr ⟨_, h⟩
  · exact .inl rfl
  · exact .inr ⟨_, h⟩

end Token
end RecordQuery
