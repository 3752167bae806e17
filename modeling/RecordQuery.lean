import RecordQuery.Listing
import RecordQuery.Model.Catalog
import RecordQuery.Settings
import RecordQuery.Web.Service
import RecordQuery.Proofs.Keyset
import RecordQuery.Proofs.Whitelist
import RecordQuery.Proofs.Records
import RecordQuery.Proofs.Plans
import RecordQuery.Proofs.Parameters
import RecordQuery.Proofs.Confinement
import RecordQuery.Proofs.Bytes
import RecordQuery.Proofs.Digits
import RecordQuery.Proofs.JsonText
import RecordQuery.Proofs.Tokens
import RecordQuery.Proofs.CalendarText
import RecordQuery.Proofs.Literals
import RecordQuery.Proofs.Positions
import RecordQuery.Proofs.JsonForms
import RecordQuery.Proofs.Places
import RecordQuery.Proofs.Pages
import RecordQuery.Proofs.Continuation
import RecordQuery.Proofs.Walk
import RecordQuery.Proofs.Answers
import RecordQuery.Proofs.Writes
import RecordQuery.Proofs.Executions
import RecordQuery.Proofs.Findings
import RecordQuery.Proofs.Bounds
import RecordQuery.Proofs.Concealment
import RecordQuery.Proofs.Slices
import RecordQuery.Proofs.Tiling
import RecordQuery.Proofs.Readings
import RecordQuery.Proofs.Criteria
import RecordQuery.Proofs.Writings
import RecordQuery.Proofs.GridWritings
import RecordQuery.Proofs.Agreement
import RecordQuery.Proofs.Memberships
import RecordQuery.Proofs.Visibility
import RecordQuery.Proofs.Rounding
import RecordQuery.Proofs.Shortest
import RecordQuery.Proofs.JsonPieces
import RecordQuery.Proofs.Inheritance
import RecordQuery.Proofs.Operands
import RecordQuery.Proofs.Twins
import RecordQuery.Proofs.CacheKeys
import RecordQuery.Proofs.CachedAnswers
import RecordQuery.Proofs.Overflow
import RecordQuery.Proofs.ValueOrder
import RecordQuery.Proofs.Canonical
import RecordQuery.Proofs.Operators
import RecordQuery.Proofs.Wildcards
import RecordQuery.Proofs.TextMatches
import RecordQuery.Proofs.Verdicts
import RecordQuery.Proofs.Encodable
import RecordQuery.Proofs.Echoes
import RecordQuery.Proofs.Beyond
import RecordQuery.Proofs.Trees
import RecordQuery.Proofs.KeptKeys
import RecordQuery.Proofs.Reordering
import RecordQuery.Proofs.KeyOrder
import RecordQuery.Proofs.KeysetOrder
import RecordQuery.Proofs.FloatText
import RecordQuery.Proofs.RoundTrip
import RecordQuery.Proofs.Acceptance
import RecordQuery.Proofs.PlacesKept
import RecordQuery.Proofs.StoredForms
import RecordQuery.Proofs.Pointing
import RecordQuery.Proofs.Conditions
import RecordQuery.Proofs.FlatFilters
import RecordQuery.Proofs.Neighbours
import RecordQuery.Proofs.SentBack
import RecordQuery.Proofs.StoreCalls
import RecordQuery.Proofs.ZeroBased
import RecordQuery.Proofs.LastRow
import RecordQuery.Proofs.EffectiveOrder
import RecordQuery.Proofs.Lookups
import RecordQuery.Proofs.NormalDrafts
import RecordQuery.Proofs.FlatOrder
import RecordQuery.Proofs.Occurrences
