import RecordQuery.Digest.Bytes
import RecordQuery.Response.Page

/-!
# Links

Links to the slice of a response and to its neighbours, as a path with parameters.

* `Links.quote` encodes a text for a parameter.
* `Envelope.links` are the links of a response.
-/

namespace RecordQuery

open RecordQuery.Number

namespace Links

def isPlain (c : Char) : Bool :=
  c.isAlphanum || c == '_' || c == '.' || c == '-' || c == '~'

/-- A byte as two digits in upper case after a percent sign. -/
def percent (b : UInt8) : List Char := '%' :: (Uuid.hexDigits 2 b.toNat).map Char.toUpper

def quoteChar (c : Char) : List Char :=
  if isPlain c then [c]
  else if c = ' ' then ['+']
  else (Digest.charBytes c).flatMap percent

/-- A text as it stands in a parameter. -/
def quote (s : String) : List Char := s.toList.flatMap quoteChar

end Links

namespace Envelope

def link (e : Envelope) (params : List (String × List Char)) : Value :=
  .text (.ofList ((e.resourcePath.getD "").toList ++ '?' ::
    Text.intercalate ['&'] (params.map fun p => p.1.toList ++ '=' :: p.2)))

def pageLink (e : Envelope) (number size : Int) : Value :=
  e.link [("page", intChars number), ("pageSize", intChars size)]

def cursorLink (e : Envelope) (size : Int) (cursor : String) : Value :=
  e.link [("pageSize", intChars size), ("cursor", Links.quote cursor)]

/-- A link after a cursor, unless there is none or it is empty. -/
def cursorLink? (e : Envelope) (size : Int) (cursor : Option String) : Option Value :=
  (cursor.filter fun c => c != "").map (e.cursorLink size)

def cursorLinks (e : Envelope) (token : Option String) (size : Int) : Entries :=
  ("self", (e.cursorLink? size token).getD (e.link [("pageSize", intChars size)])) ::
    optional "next" (e.cursorLink? size e.nextCursor)

def pageLinks (e : Envelope) (number size : Int) : Except Fault Entries := do
  let pages ← e.totalPages size
  let link (there : Bool) (name : String) (n : Int) : Entries :=
    if there then [(name, e.pageLink n size)] else []
  let last := pages.getD 0
  return link true "self" number ++ link (1 < number) "first" 1 ++
    link (1 < number) "prev" (number - 1) ++
    link (e.hasMore.getD false) "next" (number + 1) ++
    link (last != 0 && number < last) "last" last

def links (e : Envelope) : Except Fault Entries := do
  let p ← e.page
  match e.pagination, p.number with
  | .cursor c, _ => return e.cursorLinks c.token p.size
  | _, some number => e.pageLinks number p.size
  | _, none => return []

end Envelope
end RecordQuery
