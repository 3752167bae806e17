import RecordQuery.Fault

/-!
# Malformed requests

Why no query can be read from a request. Each cause has a message and the parameter at fault.
-/

namespace RecordQuery

inductive Malformed where
  | invalidJson (parameter : String)
  | filterModelNotObject
  | columnNotObject (field : String)
  /-- Conditions of a column that are joined by something other than AND. -/
  | alternatives (field : String)
  | conditionNotObject
  | itemAlternatives
  | itemNotObject
  | sortModelNotArray
  | sortEntryNotObject
deriving DecidableEq, Repr

namespace Malformed

def message : Malformed → String
  | invalidJson parameter => "Parameter \"" ++ parameter ++ "\" is not valid JSON"
  | filterModelNotObject => "filterModel must be a JSON object"
  | columnNotObject field => "filterModel." ++ field ++ " must be an object"
  | alternatives field =>
    "OR condition groups are not supported (filterModel." ++ field ++ ")"
  | conditionNotObject => "filterModel conditions must be objects"
  | itemAlternatives => "OR filter groups are not supported"
  | itemNotObject => "filterModel.items entries must be objects"
  | sortModelNotArray => "sortModel must be a JSON array"
  | sortEntryNotObject => "sortModel entries must be objects"

def parameter : Malformed → String
  | invalidJson parameter => parameter
  | sortModelNotArray | sortEntryNotObject => "sortModel"
  | _ => "filterModel"

end Malformed

inductive ParseError where
  | malformed (cause : Malformed)
  | fault (f : Fault)
deriving DecidableEq, Repr

end RecordQuery
