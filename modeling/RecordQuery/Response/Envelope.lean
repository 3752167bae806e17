import RecordQuery.Query.Specification
import RecordQuery.Value.Basic

/-!
# Envelopes

The result of a query, before it is put into the format of a response. A total, a mark for further
rows and the cursors are there only if the query found them.
-/

namespace RecordQuery

open RecordQuery.Number RecordQuery.Calendar

structure Envelope where
  records : List Entries := []
  pagination : Pagination
  totalCount : Option Int := none
  hasMore : Option Bool := none
  nextCursor : Option String := none
  startCursor : Option String := none
  endCursor : Option String := none
  appliedFilters : List FilterCriterion := []
  appliedSort : List SortCriterion := []
  appliedSearch : Option SearchSpec := none
  availableFilterFields : List String := []
  availableSortFields : List String := []
  availableSearchFields : List String := []
  resourcePath : Option String := none
  generatedAt : DateTime
  /-- How long the query took, in milliseconds. -/
  queryTime : Option Binary64 := none
deriving Repr

end RecordQuery
