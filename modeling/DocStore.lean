import DocStore.Database.Basic
import DocStore.Storage.Collection
import DocStore.Store.Shared
import DocStore.Proofs.Calendar.Timestamp
import DocStore.Proofs.Database.Enforced
import DocStore.Proofs.Database.Order
import DocStore.Proofs.Database.Script
import DocStore.Proofs.Decimal.Shortest
import DocStore.Proofs.Filter.Like
import DocStore.Proofs.Index.Collection
import DocStore.Proofs.Json.Form
import DocStore.Proofs.Json.RoundTrip
import DocStore.Proofs.Loop
import DocStore.Proofs.Model.Conform
import DocStore.Proofs.Model.Refusal
import DocStore.Proofs.Model.Stamps
import DocStore.Proofs.Query.Page
import DocStore.Proofs.Relation.Batch
import DocStore.Proofs.Relation.Independent
import DocStore.Proofs.Relation.Linking
import DocStore.Proofs.Schema.WriteBack
import DocStore.Proofs.Storage.Client
import DocStore.Proofs.Storage.Crash
import DocStore.Proofs.Storage.Drain
import DocStore.Proofs.Storage.Durability
import DocStore.Proofs.Storage.FailedLoad
import DocStore.Proofs.Storage.Restore
import DocStore.Proofs.Store.Absent
import DocStore.Proofs.Store.Act
import DocStore.Proofs.Store.Concurrency
import DocStore.Proofs.Store.Document
import DocStore.Proofs.Store.Dropped
import DocStore.Proofs.Store.Gauge
import DocStore.Proofs.Store.Identity
import DocStore.Proofs.Store.Indexed
import DocStore.Proofs.Store.Naming
import DocStore.Proofs.Store.Search
import DocStore.Proofs.Store.Uniqueness
import DocStore.Proofs.Store.Wedge
import DocStore.Proofs.Telemetry.Span
import DocStore.Proofs.Value.Offset
