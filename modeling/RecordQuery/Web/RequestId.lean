import RecordQuery.Value.Text

/-!
# Request identifiers

A client may name its request; the name is kept if it is short and plain, and otherwise a new one is
made.

* `RequestId.ofHeader?` is the name that a header gives.
-/

namespace RecordQuery.Web.RequestId

def isAllowed (c : Char) : Bool := c.isAlphanum || c == '.' || c == '_' || c == '-'

def maxLength : Nat := 128

/-- The identifier in a header, if it can be kept. -/
def ofHeader? (raw : Value) : Option String :=
  let cs := raw.trimmedOrEmpty
  if !cs.isEmpty && cs.length ≤ maxLength && cs.all isAllowed then some (.ofList cs) else none

end RecordQuery.Web.RequestId
