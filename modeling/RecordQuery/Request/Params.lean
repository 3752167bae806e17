import RecordQuery.Text.Case
import RecordQuery.Text.Split
import RecordQuery.Value.Text

/-!
# Request parameters

A query string is a list of pairs of a key and a text. Folded, it maps every key to its text, or to
the list of its texts if the key is repeated. Parameters from other places may hold any value.

* `Params.ofPairs` folds the pairs.
* `Params.first` is the last text of the first of several keys that has one.
* `Params.splitCommas` splits texts with commas into their parts, inside lists too.
-/

namespace RecordQuery

open RecordQuery.Text

/-- Parameters by key, in the order in which the keys first came. -/
abbrev Params := Entries

namespace Params

/-- The values of a parameter that is to take another one. -/
def occurrences : Value → List Value
  | .list items => items
  | v => [v]

/-- Adds a pair; a key that is there already gets a list of its values. -/
def add (params : Params) (key : String) (value : Value) : Params :=
  match params.get? key with
  | none => params.put key value
  | some existing => params.put key (.list (occurrences existing ++ [value]))

def ofPairs (pairs : List (String × Value)) : Params :=
  pairs.foldl (fun params p => params.add p.1 p.2) []

/-- Of a repeated parameter the last value counts. -/
def last : Value → Value
  | .list items => items.getLast?.getD .null
  | .tuple items => items.getLast?.getD .null
  | v => v

/-- The value of the first of the keys that has one which is not the empty text. -/
def first (params : Params) : List String → Value
  | [] => .null
  | name :: names =>
    let v := last ((params.get? name).getD .null)
    if v.isMissing then first params names else v

/-- The text of a value without blanks at its ends, in lower case. -/
def lowered (v : Value) : String := .ofList (lowerChars v.trimmed)

def trimmedText (v : Value) : String := .ofList v.trimmed

def affirmations : List String := ["1", "true", "yes", "y", "on"]

/-- The value is a word for yes. -/
def affirms (v : Value) : Bool := affirmations.contains (lowered (last v))

/-- The parts of a text between commas, without blanks at their ends and without empty ones. -/
def commaParts (s : String) : List Value :=
  (((splitOn ',' s.toList).map trimChars).filter fun part => !part.isEmpty).map
    fun part => .text (.ofList part)

mutual

/-- All the parts of the texts in a value; values that are no texts are kept whole. -/
def splitCommas : Value → List Value
  | .list items => splitAllCommas items
  | .tuple items => splitAllCommas items
  | .text s => commaParts s
  | v => [v]

def splitAllCommas : List Value → List Value
  | [] => []
  | v :: rest => splitCommas v ++ splitAllCommas rest

end

end Params

/-- Characters that names of fields are made of. -/
def isFieldChar (c : Char) : Bool := c.isAlphanum || c == '_' || c == '.'

/-- The name of a field in a value: what remains of its text when other characters are left out. -/
def fieldName (raw : Value) : String := .ofList (raw.trimmedOrEmpty.filter isFieldChar)

theorem isFieldChar_of_mem_fieldName {raw : Value} {c : Char} (h : c ∈ (fieldName raw).toList) :
    isFieldChar c = true := by
  simp only [fieldName, String.toList_ofList, List.mem_filter] at h
  exact h.2

/-- The fields that a search is limited to. -/
def Params.searchFields (params : Params) : List String :=
  let raw := match params.get? "search_fields" with
    | some v => v
    | none => (params.get? "searchFields").getD .null
  if raw.isNull then []
  else ((splitCommas raw).map fieldName).filter fun name => name != ""

end RecordQuery
