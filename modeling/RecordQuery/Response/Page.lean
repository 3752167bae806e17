import RecordQuery.Number.Binary64
import RecordQuery.Response.Envelope

/-!
# Page arithmetic

* `Envelope.page` is the page of a slice: for a window the one that its first row lies on.
* `Envelope.totalPages` is the number of pages, by way of a rounded quotient.
-/

namespace RecordQuery

open RecordQuery.Number

/-- Where a slice stands. A slice after a cursor has no page number. -/
structure PagePosition where
  number : Option Int
  size : Int
  offset : Nat
deriving DecidableEq, Repr

namespace Envelope

def page (e : Envelope) : Except Fault PagePosition :=
  match e.pagination with
  | .offset p => .ok { number := some p.page, size := p.pageSize, offset := e.pagination.firstRow }
  | .window w =>
    let size := e.pagination.limit
    if size = 0 then .error .zeroDivision
    else .ok { number := some ((w.startRow : Int).fdiv size + 1), size, offset := w.startRow }
  | .cursor c => .ok { number := none, size := c.pageSize, offset := 0 }

def totalPages (e : Envelope) (size : Int) : Except Fault (Option Int) :=
  match e.totalCount with
  | none => .ok none
  | some total =>
    if size = 0 then .ok (some 0)
    else match (Binary64.ofQuotient? total size).bind Binary64.ceil? with
      | some n => .ok (some n)
      | none => .error .tooLarge

def optional (name : String) : Option Value → Entries
  | some v => [(name, v)]
  | none => []

def textOrNull (s : Option String) : Value := (s.map Value.text).getD .null

def intOrNull (n : Option Int) : Value := (n.map Value.int).getD .null

/-- What a response says about its slice. -/
def pageEntries (e : Envelope) : Except Fault Entries := do
  let p ← e.page
  let place : Entries := match e.pagination with
    | .cursor c => [("cursor", textOrNull c.token), ("nextCursor", textOrNull e.nextCursor)]
    | _ => [("page", intOrNull p.number), ("offset", .int p.offset), ("limit", .int p.size),
        ("hasPreviousPage", .bool (0 < p.offset))]
  let bounds : Entries := match e.pagination with
    | .window w => [("startRow", .int w.startRow), ("endRow", .int w.endRow)]
    | _ => []
  let pages ← if e.pagination.isCursor then pure none else e.totalPages p.size
  return [("type", .text e.pagination.kind), ("pageSize", .int p.size)] ++ place ++ bounds ++
    optional "hasNextPage" (e.hasMore.map .bool) ++ optional "total" (e.totalCount.map .int) ++
    optional "totalPages" (pages.map .int)

end Envelope
end RecordQuery
