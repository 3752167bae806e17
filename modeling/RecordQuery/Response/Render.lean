import RecordQuery.Response.CacheKey
import RecordQuery.Response.Format
import RecordQuery.Response.Links

/-!
# Rendering

* `Format.render` puts an envelope into a format. It needs nothing but the envelope.
* `Format.catalog` lists the formats.
-/

namespace RecordQuery

namespace Envelope

def texts (names : List String) : Value := .list (names.map .text)

def data (e : Envelope) : Value := .list (e.records.map .mapping)

/-- All that is known about a response. -/
def about (e : Envelope) : Except Fault Value := do
  let pagination ← e.pageEntries
  let filters ← e.filterValues
  return .mapping ([
    ("pagination", .mapping pagination),
    ("filters", .mapping [("applied", filters), ("available", texts e.availableFilterFields)]),
    ("sorting", .mapping [("applied", e.sortValues), ("available", texts e.availableSortFields)]),
    ("search", .mapping [("applied", e.searchValue),
      ("availableFields", texts e.availableSearchFields)])] ++
    optional "performance" (e.queryTime.map fun x =>
      .mapping [("queryTimeMs", .float x), ("recordCount", .int e.records.length)]))

/-- What every response starts with. -/
def success (e : Envelope) : Entries := [("success", .bool true), ("data", e.data)]

def more (e : Envelope) : Value := .bool (e.hasMore.getD false)

def renderStandard (e : Envelope) : Except Fault Entries := do
  return e.success ++ [("meta", ← e.about)]

/-- The last row is unknown as long as there may be more of them. -/
def renderRowModel (e : Envelope) : Entries :=
  e.success ++ [("lastRow", intOrNull e.totalCount)]

/-- The page counted from zero; a slice without a page is on the first one. -/
def pageFromZero (number : Option Int) : Int :=
  match number with
  | some n => if n = 0 then 0 else n - 1
  | none => 0

def renderDataTable (e : Envelope) : Except Fault Entries := do
  let p ← e.page
  return e.success ++ [
    ("rowCount", .int (e.totalCount.getD (-1))),
    ("meta", .mapping [("page", .int (pageFromZero p.number)), ("pageSize", .int p.size),
      ("hasNextPage", e.more)])]

def renderQueryCache (e : Envelope) : Except Fault Entries := do
  return e.success ++ [
    ("meta", ← e.about),
    ("links", .mapping (← e.links)),
    ("timestamp", .text e.generatedAt.text)]

def renderCacheFriendly (e : Envelope) : Except Fault Entries := do
  return e.success ++ [("meta", ← e.about), ("cacheKey", .text (← e.cacheKey))]

def renderInfiniteScroll (e : Envelope) : Entries :=
  e.success ++ [("hasNextPage", e.more), ("nextCursor", textOrNull e.nextCursor)] ++
    optional "total" (e.totalCount.map .int)

/-- A slice that continues another one. -/
def isContinuation (e : Envelope) : Bool :=
  match e.pagination with
  | .cursor c => c.token.isSome
  | _ => false

def renderCursor (e : Envelope) : Entries :=
  e.success ++ [("pageInfo", .mapping [
      ("hasNextPage", e.more),
      ("hasPreviousPage", .bool e.isContinuation),
      ("startCursor", textOrNull e.startCursor),
      ("endCursor", textOrNull e.endCursor)])] ++
    optional "totalCount" (e.totalCount.map .int)

end Envelope

namespace Format

/-- The response in a format. -/
def render : Format → Envelope → Except Fault Entries
  | standard, e => e.renderStandard
  | rowModel, e => .ok e.renderRowModel
  | dataTable, e => e.renderDataTable
  | queryCache, e => e.renderQueryCache
  | cacheFriendly, e => e.renderCacheFriendly
  | infiniteScroll, e => .ok e.renderInfiniteScroll
  | cursor, e => .ok e.renderCursor

def describe (f : Format) : Value :=
  .mapping [
    ("id", .text f.id),
    ("aliases", .list (f.aliases.map .text)),
    ("description", .text f.description),
    ("needsTotal", .bool f.needsTotal),
    ("pagination", .text f.nature.name)]

/-- All formats as clients see them. -/
def catalog : List Value := all.map describe

end Format
end RecordQuery
