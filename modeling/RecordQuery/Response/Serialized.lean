import RecordQuery.Fault
import RecordQuery.Value.Basic

/-!
# Serialized values

Values as answers hold them: decimals as floating numbers, times and identifiers as texts.

* `Value.serialized` fails only for a decimal that signals when it is read.
-/

namespace RecordQuery.Value

mutual

def serialized : Value → Except Fault Value
  | .decimal d =>
    match d.toBinary64? with
    | some x => .ok (.float x)
    | none => .error .unreadable
  | .date d => .ok (.text d.text)
  | .datetime t => .ok (.text t.text)
  | .uuid u => .ok (.text u.text)
  | .list items => (serializedList items).map .list
  | .tuple items => (serializedList items).map .list
  | .mapping entries => (serializedEntries entries).map .mapping
  | v => .ok v

def serializedList : List Value → Except Fault (List Value)
  | [] => .ok []
  | v :: rest => do
    let w ← serialized v
    return w :: (← serializedList rest)

def serializedEntries : Entries → Except Fault Entries
  | [] => .ok []
  | (k, v) :: rest => do
    let w ← serialized v
    return (k, w) :: (← serializedEntries rest)

end

end RecordQuery.Value
