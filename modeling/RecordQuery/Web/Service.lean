import RecordQuery.Listing
import RecordQuery.Model.Catalog
import RecordQuery.Settings
import RecordQuery.Web.CrossOrigin
import RecordQuery.Web.QueryString
import RecordQuery.Web.RequestId
import RecordQuery.Web.Route

/-!
# The service

* `Service.answer` answers a request. It fails only for a fault that nothing has dealt with.
* `Service.respond` turns such a failure into a response too.
-/

namespace RecordQuery.Web

open RecordQuery.Store RecordQuery.Calendar

structure Service where
  settings : Settings := {}
  registry : Registry
  /-- The store of a model, by the model's name. -/
  store : String → RecordQuery.Store
  now : DateTime
  /-- The time at which cursors are read, in seconds. -/
  seconds : Int

namespace Service

/-! ## Errors -/

def notFound (detail : String) : Response := .json 404 [("detail", .text detail)]

def notAllowed : Response :=
  let r := Response.json 405 [("detail", .text "Method Not Allowed")]
  { r with headers := ("allow", "GET") :: r.headers }

def failure (status : Nat) (error detail : String) (more : Entries) : Response :=
  .json status
    ([("success", .bool false), ("error", .text error), ("detail", .text detail)] ++ more)

/-- The response to a listing that fails. A fault has none. -/
def ofError (requestId : String) : ListingError → Except Fault Response
  | .malformed cause =>
    .ok (failure 400 "malformed_request" cause.message [("parameter", .text cause.parameter)])
  | .violations all =>
    .ok (failure 422 "validation_failed" "Parameter validation failed"
      [("validation_errors", .list (all.map Violation.value))])
  | .execution (.store ..) =>
    .ok (failure 500 "internal_error" "Query execution failed"
      [("correlation_id", .text requestId)])
  | .execution (.fault f) => .error f
  | .unknownFormat _ => .error .unreadable

/-! ## Records -/

variable (s : Service)

def listing (md : Metadata) : Listing :=
  { validator := .ofMetadata md none s.settings.strictFieldValidation (some s.settings.cursorSecret)
      s.seconds
    executor := {
      metadata := md
      timeout := .float s.settings.queryTimeout
      secret := some s.settings.cursorSecret }
    defaultFormat := s.settings.defaultResponseFormat }

/-- The path of a resource as it is shown in links. -/
def resourcePath (path : String) : String :=
  .ofList ((path.toList.takeWhile fun c => c != '?' && c != '#').filter fun c =>
    c != '\t' && c != '\n' && c != '\r')

/-- The records of a model within a scope. -/
def list (md : Metadata) (r : Request) (requestId : String) (scope : List Predicate)
    (deletedOnly : Bool) : Except Fault Response :=
  let request : ListingRequest := {
    params := .ofPairs (QueryString.read r.query)
    scope, deletedOnly
    resourcePath := some (resourcePath r.path) }
  match (s.listing md).run (s.store md.model.name) request s.now with
  | .ok entries => .ok (.json 200 entries)
  | .error e => ofError requestId e

def listDeleted (md : Metadata) (name : String) (r : Request) (requestId : String) :
    Except Fault Response :=
  match md.model.softDeleteField with
  | some field => s.list md r requestId [.isNotNull field] true
  | none => .ok (notFound ("Model \"" ++ name ++ "\" has no soft-deleted records"))

/-- The records that belong to a parent. -/
def listRelated (md : Metadata) (name relation parent : String) (r : Request)
    (requestId : String) : Except Fault Response :=
  match md.relation? relation with
  | .error _ =>
    .ok (notFound ("Unknown relation \"" ++ relation ++ "\" for model \"" ++ name ++ "\""))
  | .ok (column, kind) =>
    match coerce kind [] (.text parent) with
    | .ok v => s.list md r requestId [.equal column v] false
    | .error (.fault f) => .error f
    | .error (.invalid wanted) =>
      ofError requestId (.violations [.about relation (.invalid wanted) (.text parent)])

/-- What is done with the metadata of a model that a path names. -/
def withModel (name : String) (k : Metadata → Except Fault Response) : Except Fault Response :=
  match s.registry.find? (.text name) with
  | some md => k md
  | none => .ok (notFound ("Unknown model \"" ++ name ++ "\""))

def entriesOf (v : Value) : Entries := v.entries?.getD []

def answerRoute (route : Route) (r : Request) (requestId : String) : Except Fault Response :=
  match route with
  | .landing =>
    .ok (.json 200 [("service", .text s.settings.appName), ("status", .text "ok")])
  | .health => .ok (.json 200 [("status", .text "ok")])
  | .formats => .ok (.json 200 [("default", .text s.settings.defaultResponseFormat),
      ("formats", .list Format.catalog)])
  | .models => .ok (.json 200 [("models", .list (s.registry.names.map .text))])
  | .description model => s.withModel model fun md => .ok (.json 200 (entriesOf md.describe))
  | .records model => s.withModel model fun md => s.list md r requestId [] false
  | .deleted model => s.withModel model fun md => s.listDeleted md model r requestId
  | .related model relation parent =>
    s.withModel model fun md => s.listRelated md model relation parent r requestId

/-! ## Responses -/

/-- The characters of an address that stand for themselves in a header. -/
def isAddressChar (c : Char) : Bool := Links.isPlain c || ":/%#?=@[]!$&'()*+,;".toList.contains c

def quoteAddress (cs : List Char) : String :=
  .ofList (cs.flatMap fun c =>
    if isAddressChar c then [c] else (Digest.charBytes c).flatMap Links.percent)

/-- The address to which a request is sent on. -/
def redirection (r : Request) (path : String) : Response :=
  let host := (r.headers.get? "host").getD "test"
  let query := if r.query = "" then [] else '?' :: r.query.toList
  { status := 307
    headers := [("location",
      quoteAddress ("http://".toList ++ host.toList ++ path.toList ++ query))]
    body := .empty }

def routed (r : Request) (requestId : String) : Except Fault Response :=
  match Route.ofPath? r.path with
  | some route =>
    if r.method = "GET" then s.answerRoute route r requestId else .ok notAllowed
  | none =>
    match Route.redirect? r.path with
    | some path => .ok (redirection r path)
    | none => .ok (notFound "Not Found")

/-- A response whose body can be written: JSON has no form for numbers that are not finite. -/
def encodable (answer : Response) : Except Fault Response :=
  match answer.body with
  | .json v => if Json.isEncodable v then .ok answer else .error .unreadable
  | _ => .ok answer

def hardening : Headers := [
  ("x-content-type-options", "nosniff"),
  ("x-frame-options", "DENY"),
  ("referrer-policy", "no-referrer"),
  ("cross-origin-resource-policy", "same-origin"),
  ("content-security-policy", "default-src 'none'; frame-ancestors 'none'"),
  ("cache-control", "no-store")]

/-- A response with the headers that every response has. -/
def hardened (requestId : String) (answer : Response) : Response :=
  { answer with headers := answer.headers ++ hardening ++ [("x-request-id", requestId)] }

/-- The answer to a request, which is named `fresh` unless it names itself. -/
def answer (fresh : String) (r : Request) : Except Fault Response := do
  let header := ((r.headers.get? "x-request-id").map Value.text).getD .null
  let requestId := (RequestId.ofHeader? header).getD fresh
  let origins := s.settings.corsOriginsList
  match CrossOrigin.preflight? origins r with
  | some answer => return hardened requestId answer
  | none =>
    let answer ← encodable (← s.routed r requestId)
    return hardened requestId (CrossOrigin.mark origins r answer)

/-- The response to a request that ended in a fault. -/
def crashed : Response := .plain 500 "Internal Server Error"

def respond (fresh : String) (r : Request) : Response :=
  match s.answer fresh r with
  | .ok answer => answer
  | .error _ => crashed

end Service
end RecordQuery.Web
