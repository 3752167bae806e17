import RecordQuery.Digest.Base64
import RecordQuery.Digest.Sha256
import RecordQuery.Fault
import RecordQuery.Json.Reader
import RecordQuery.Json.Writer
import RecordQuery.Text.Split

/-!
# Signed tokens

A token carries claims that are signed with a secret: three parts in URL-safe Base64 between points,
which are a header, the claims and the signature of both.

* `Token.sign` writes claims as a token.
* `Token.keys` are the keys that a secret stands for. Secrets that hold a public key or a
  certificate are not told apart from others.
* `Token.read` gives the claims of a token whose signature fits and whose registered claims hold.
-/

namespace RecordQuery.Token

open RecordQuery.Digest RecordQuery.Number

inductive Error where
  | invalid
  | fault (f : Fault)
deriving DecidableEq, Repr

def algorithm : String := "HS256"

def header : Entries := [("alg", .text algorithm), ("typ", .text "JWT")]

/-- A text in Base64. -/
def segment (cs : List Char) : List Char := Base64.encode (utf8Encode cs)

def signature (key : Bytes) (signed : List Char) : Bytes := hmac key (utf8Encode signed)

def sign (secret : List Char) (claims : Entries) : List Char :=
  let signed := segment (Json.chars (.mapping header)) ++ '.' ::
    segment (Json.chars (.mapping claims))
  signed ++ '.' :: Base64.encode (signature (utf8Encode secret) signed)

/-! ## Parts -/

/-- What stands before and after the last point. -/
def cutAtLast (cs : List Char) : Option (List Char × List Char) :=
  match Text.cutAt '.' cs.reverse with
  | (after, some before) => some (before.reverse, after.reverse)
  | (_, none) => none

/-- What a token has to have. -/
def present {α : Type} : Option α → Except Error α
  | some a => .ok a
  | none => .error .invalid

/-- The mapping that a part holds. -/
def mappingOf (part : List Char) : Except Error Entries := do
  let cs ← present (utf8Decode? (← present (Base64.decode? part)))
  match Json.load cs with
  | .ok (.mapping entries) => return entries
  | .error .tooDeep => throw (.fault .tooLarge)
  | _ => throw .invalid

structure Parts where
  /-- The text that is signed. -/
  signed : List Char
  header : List Char
  claims : List Char
  signature : List Char

def parts? (token : List Char) : Option Parts := do
  let (signed, signature) ← cutAtLast token
  match Text.cutAt '.' signed with
  | (header, some claims) => return { signed, header, claims, signature }
  | (_, none) => none

/-! ## Keys -/

/-- The key that is written as a key of its own: that of an octet sequence, in Base64. -/
def writtenKey (entries : Entries) : Except Error Bytes :=
  if !((entries.get? "kty").getD .null).eqv (.text "oct") then .error .invalid
  else match entries.get? "k" with
    | some (.text k) =>
      match Base64.decode? k.toList with
      | some bytes => .ok bytes
      | none => .error (.fault .unreadable)
    | _ => .error (.fault .notText)

/-- The key that a member of a set of keys stands for. -/
def keyOf : Value → Except Error Bytes
  | .text s => .ok (utf8Encode s.toList)
  | .mapping entries => writtenKey entries
  | _ => .error .invalid

/-- The keys in a set of keys: the items of a list, the characters of a text, or the names in a
mapping. -/
def keysIn (v : Value) : List (Except Error Bytes) :=
  match v.members? with
  | some members => members.map keyOf
  | none => [.error (.fault .unsuitable)]

/-- The keys that a mapping holds as a set of them, that which it is itself, or those that are its
values. -/
def keysOfMapping (entries : Entries) : List (Except Error Bytes) :=
  match entries.get? "keys" with
  | some set => keysIn set
  | none =>
    if entries.has "kty" ∨ entries.isEmpty then [writtenKey entries]
    else entries.map fun e => keyOf e.2

/-- The value that a secret holds, if it is written in JSON. Numbers stand as they are written. -/
def heldBy? (secret : List Char) : Option Value :=
  (Json.readWith Json.writtenNumber? secret).toOption

/-- The keys with which a signature is checked. A secret that is written in JSON stands for the text
or the texts that it holds, for a set of keys, or for a key that is written as one. -/
def keys (secret : List Char) : List (Except Error Bytes) :=
  match heldBy? secret with
  | none => [.ok (utf8Encode secret)]
  | some (.list items) => items.map keyOf
  | some (.mapping entries) => keysOfMapping entries
  | some v => [keyOf v]

/-- Some key fits the signature, and none before it is unusable. -/
def fits (signed : List Char) (bytes : Bytes) : List (Except Error Bytes) → Except Error Unit
  | [] => .error .invalid
  | .error e :: _ => .error e
  | .ok key :: rest => if signature key signed == bytes then .ok () else fits signed bytes rest

/-! ## Registered claims -/

/-- The number of seconds that a claim about time gives. -/
def seconds : Value → Except Error Int
  | .bool b => .ok (if b then 1 else 0)
  | .int n => .ok n
  | .float x =>
    match x.truncate? with
    | some n => .ok n
    | none => .error (if x.isNan then .invalid else .fault .tooLarge)
  | .text s =>
    match readInt s.toList with
    | some n => .ok n
    | none => .error .invalid
  | _ => .error (.fault .unsuitable)

/-- A claim about time holds, if it is there. -/
def timeHolds (claims : Entries) (name : String) (holds : Int → Bool) : Except Error Unit :=
  match claims.get? name with
  | none => .ok ()
  | some v => do if holds (← seconds v) then .ok () else .error .invalid

def isTextOrAbsent (claims : Entries) (name : String) : Bool :=
  match claims.get? name with
  | none => true
  | some v => v.text?.isSome

/-- The registered claims hold: the token is in force at `now`, for no audience in particular. -/
def checkClaims (now : Int) (claims : Entries) : Except Error Unit := do
  timeHolds claims "iat" fun _ => true
  timeHolds claims "nbf" fun t => t ≤ now
  timeHolds claims "exp" fun t => now ≤ t
  if claims.has "aud" ∨ claims.has "at_hash" then throw .invalid
  if isTextOrAbsent claims "sub" && isTextOrAbsent claims "jti" then return ()
  throw .invalid

/-- The claims of a token whose signature is checked, before they are looked at. -/
def verified (secret token : List Char) : Except Error Entries := do
  let p ← present (parts? token)
  let header ← mappingOf p.header
  let alg ← present (header.get? "alg")
  if !alg.eqv (.text algorithm) then throw .invalid
  let _ ← present (Base64.decode? p.claims)
  let bytes ← present (Base64.decode? p.signature)
  fits p.signed bytes (keys secret)
  mappingOf p.claims

def read (secret : List Char) (now : Int) (token : List Char) : Except Error Entries := do
  let claims ← verified secret token
  checkClaims now claims
  return claims

end RecordQuery.Token
