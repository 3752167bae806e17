import RecordQuery.Text.Split
import RecordQuery.Web.Message

/-!
# Requests from other origins

Browsers ask before they send a request to another origin, and read an answer only if it allows
their origin.

* `CrossOrigin.preflight?` answers the question of a browser.
* `CrossOrigin.mark` says on an answer which origin may read it.
-/

namespace RecordQuery.Web.CrossOrigin

def isAllowed (origins : List String) (origin : String) : Bool :=
  origins.contains "*" || origins.contains origin

def allowOrigin (origins : List String) (origin : String) : Headers :=
  if isAllowed origins origin then [("access-control-allow-origin", origin)] else []

def credentials : Headers := [("access-control-allow-credentials", "true")]

def allowedMethod : String := "GET"

/-- What a browser may not do. -/
def refusals (origins : List String) (origin method : String) : List String :=
  (if isAllowed origins origin then [] else ["origin"]) ++
    (if method = allowedMethod then [] else ["method"])

/-- The answer to a browser that asks whether it may send a request. -/
def preflight? (origins : List String) (r : Request) : Option Response := do
  let origin ← r.headers.get? "origin"
  let method ← r.headers.get? "access-control-request-method"
  if r.method != "OPTIONS" then none
  let requested := (r.headers.get? "access-control-request-headers").map fun names =>
    [("access-control-allow-headers", names)]
  let headers : Headers := [("vary", "Origin"), ("access-control-allow-methods", allowedMethod),
    ("access-control-max-age", "600")] ++ credentials ++ allowOrigin origins origin ++
    requested.getD []
  let answer := match refusals origins origin method with
    | [] => Response.plain 200 "OK"
    | parts => Response.plain 400 ("Disallowed CORS " ++ ", ".intercalate parts)
  return { answer with headers := answer.headers ++ headers }

/-- An answer with the origin that may read it. -/
def mark (origins : List String) (r : Request) (answer : Response) : Response :=
  let allowed := match r.headers.get? "origin" with
    | some origin => credentials ++ allowOrigin origins origin
    | none => []
  { answer with headers := answer.headers ++ allowed ++ [("vary", "Origin")] }

end RecordQuery.Web.CrossOrigin
