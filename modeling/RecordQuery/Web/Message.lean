import RecordQuery.Value.Basic

/-!
# Requests and responses

What passes between a service and its clients. The path of a request has been decoded, its query has
not. Names of headers are in lower case in responses.

* `Headers.get?` finds a header by its name in letters of either case.
-/

namespace RecordQuery.Web

abbrev Headers := List (String × String)

namespace Headers

def sameName (a b : String) : Bool := a.toLower == b.toLower

def get? (headers : Headers) (name : String) : Option String :=
  (headers.find? fun h => sameName h.1 name).map (·.2)

/-- Writes a header: in place if it is there, else at the end. -/
def put : Headers → String → String → Headers
  | [], name, value => [(name, value)]
  | h :: rest, name, value =>
    if sameName h.1 name then (name, value) :: rest else h :: put rest name value

end Headers

structure Request where
  method : String := "GET"
  path : String
  query : String := ""
  headers : Headers := []
deriving Repr

inductive Body where
  | json (v : Value)
  | plain (s : String)
  | empty
deriving Repr

structure Response where
  status : Nat := 200
  headers : Headers := []
  body : Body
deriving Repr

/-- A response in JSON. -/
def Response.json (status : Nat) (entries : Entries) : Response :=
  { status, headers := [("content-type", "application/json")], body := .json (.mapping entries) }

def Response.plain (status : Nat) (text : String) : Response :=
  { status, headers := [("content-type", "text/plain; charset=utf-8")], body := .plain text }

end RecordQuery.Web
