/-!
# Splitting and joining

* `splitOn` cuts a text at every occurrence of a separator character, `joinWith` puts pieces
  together with it.
* `replaceAll` puts one text in the place of another.
-/

namespace RecordQuery.Text

/-- The pieces between the occurrences of `sep`, one more than there are occurrences. -/
def splitOn (sep : Char) : List Char → List (List Char)
  | [] => [[]]
  | c :: cs =>
    if c = sep then [] :: splitOn sep cs
    else
      match splitOn sep cs with
      | piece :: rest => (c :: piece) :: rest
      | [] => [[c]]

def joinWith (sep : Char) : List (List Char) → List Char
  | [] => []
  | [piece] => piece
  | piece :: rest => piece ++ sep :: joinWith sep rest

/-- The characters up to the first `sep`, and those after it if there is one. -/
def cutAt (sep : Char) (cs : List Char) : List Char × Option (List Char) :=
  match cs.span (· != sep) with
  | (before, _ :: after) => (before, some after)
  | (before, []) => (before, none)

/-- The texts put together with `sep` between them. -/
def intercalate (sep : List Char) : List (List Char) → List Char
  | [] => []
  | [piece] => piece
  | piece :: rest => piece ++ sep ++ intercalate sep rest

/-- `cs` with every occurrence of the nonempty text `old` replaced by `new`, from the left. -/
def replaceAll (old new : List Char) (cs : List Char) : List Char :=
  match cs with
  | [] => []
  | c :: rest =>
    if old ≠ [] ∧ old.isPrefixOf (c :: rest) then
      new ++ replaceAll old new ((c :: rest).drop (max old.length 1))
    else c :: replaceAll old new rest
termination_by cs.length
decreasing_by
  all_goals simp only [List.length_cons, List.length_drop]; omega

/-- `needle` occurs in `cs` without a gap. -/
def containsChars (needle : List Char) : List Char → Bool
  | [] => needle.isEmpty
  | c :: cs => needle.isPrefixOf (c :: cs) || containsChars needle cs

theorem splitOn_ne_nil (sep : Char) (cs : List Char) : splitOn sep cs ≠ [] := by
  cases cs with
  | nil => simp [splitOn]
  | cons c cs =>
    unfold splitOn
    split
    · simp
    · split <;> simp

end RecordQuery.Text
