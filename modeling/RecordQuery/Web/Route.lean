import RecordQuery.Text.Split

/-!
# Routes

* `Route.ofPath?` tells the resource that a path names.
* `Route.redirect?` is the path of the same resource without or with a slash at its end.
-/

namespace RecordQuery.Web

inductive Route where
  | landing
  | health
  | formats
  | models
  | description (model : String)
  | deleted (model : String)
  | related (model relation parent : String)
  | records (model : String)
deriving DecidableEq, Repr

namespace Route

/-- The parts of a path between its slashes. -/
def parts (path : String) : List String := (Text.splitOn '/' path.toList).map .ofList

/-- The route with these parts, of which those that name something are not empty. -/
def ofParts? : List String → Option Route
  | ["", ""] => some landing
  | ["", "health"] => some health
  | ["", "api", "meta", "formats"] => some formats
  | ["", "api", "meta", "models"] => some models
  | ["", "api", "records", model] => if model = "" then none else some (records model)
  | ["", "api", "records", model, "meta"] => if model = "" then none else some (description model)
  | ["", "api", "records", model, "deleted"] => if model = "" then none else some (deleted model)
  | ["", "api", "records", model, "related", relation, parent] =>
    if model = "" ∨ relation = "" ∨ parent = "" then none
    else some (related model relation parent)
  | _ => none

def ofPath? (path : String) : Option Route := ofParts? (parts path)

/-- The path without the slashes at its end, or else with one. -/
def otherForm (path : String) : String :=
  match path.toList.reverse with
  | '/' :: cs => .ofList (cs.dropWhile (· == '/')).reverse
  | _ => path ++ "/"

/-- The other form of a path, if it names a resource. -/
def redirect? (path : String) : Option String :=
  if path = "/" then none
  else (ofPath? (otherForm path)).map fun _ => otherForm path

end Route
end RecordQuery.Web
