import UsageBilling.Catalog
import UsageBilling.Coverage.Basic
import UsageBilling.Coverage.Insert
import UsageBilling.Coverage.Query
import UsageBilling.Coverage.Text
import UsageBilling.Decimal.Arithmetic
import UsageBilling.Decimal.Basic
import UsageBilling.Decimal.Text
import UsageBilling.Document.Decode
import UsageBilling.Document.Pricing
import UsageBilling.Document.Request
import UsageBilling.Document.Settings
import UsageBilling.Document.Usage
import UsageBilling.Failure
import UsageBilling.Instant.Basic
import UsageBilling.Instant.Calendar
import UsageBilling.Instant.Text
import UsageBilling.Json.Basic
import UsageBilling.Json.Number
import UsageBilling.Json.Reader
import UsageBilling.Json.Token
import UsageBilling.Json.Writer
import UsageBilling.Main
import UsageBilling.Meter.Aggregation
import UsageBilling.Meter.PowerState
import UsageBilling.Meter.Registry
import UsageBilling.Meter.RootDisk
import UsageBilling.Meter.Strategy
import UsageBilling.Meter.Uptime
import UsageBilling.Number.Binary64
import UsageBilling.Number.Power
import UsageBilling.Number.Rounding
import UsageBilling.Number.Shortest
import UsageBilling.Period.Metering
import UsageBilling.Period.Request
import UsageBilling.Period.Service
import UsageBilling.Proofs.Coverage.Calls
import UsageBilling.Proofs.Coverage.Clipping
import UsageBilling.Proofs.Coverage.Colouring
import UsageBilling.Proofs.Coverage.Commutation
import UsageBilling.Proofs.Coverage.Components
import UsageBilling.Proofs.Coverage.Decoding
import UsageBilling.Proofs.Coverage.Ends
import UsageBilling.Proofs.Coverage.Histories
import UsageBilling.Proofs.Coverage.Insertion
import UsageBilling.Proofs.Coverage.Interchange
import UsageBilling.Proofs.Coverage.Merging
import UsageBilling.Proofs.Coverage.Order
import UsageBilling.Proofs.Coverage.Overflow
import UsageBilling.Proofs.Coverage.Painting
import UsageBilling.Proofs.Coverage.Passes
import UsageBilling.Proofs.Coverage.Queries
import UsageBilling.Proofs.Coverage.Repainting
import UsageBilling.Proofs.Coverage.Replay
import UsageBilling.Proofs.Coverage.Text
import UsageBilling.Proofs.Coverage.Tiling
import UsageBilling.Proofs.Coverage.Totals
import UsageBilling.Proofs.Decimal.Addition
import UsageBilling.Proofs.Decimal.Operations
import UsageBilling.Proofs.Decimal.Order
import UsageBilling.Proofs.Decimal.Rounding
import UsageBilling.Proofs.Number.NearestEven
import UsageBilling.Proofs.Period.Bounds
import UsageBilling.Proofs.Period.FinishingOrder
import UsageBilling.Proofs.Period.KeyUnits
import UsageBilling.Proofs.Period.LeapSeconds
import UsageBilling.Proofs.Period.MeteredRuns
import UsageBilling.Proofs.Period.MeteredTime
import UsageBilling.Proofs.Period.OrderSensitivity
import UsageBilling.Proofs.Period.Persistence
import UsageBilling.Proofs.Period.Probing
import UsageBilling.Proofs.Period.Profiles
import UsageBilling.Proofs.Period.QuantityLines
import UsageBilling.Proofs.Period.Reconciling
import UsageBilling.Proofs.Period.RelevantSamples
import UsageBilling.Proofs.Period.Rerun
import UsageBilling.Proofs.Period.Restoring
import UsageBilling.Proofs.Period.SharedCatalog
import UsageBilling.Proofs.Period.Sharing
import UsageBilling.Proofs.Period.UnitLookups
import UsageBilling.Proofs.Period.UptimeIntervals
import UsageBilling.Proofs.Period.UptimePhases
import UsageBilling.Proofs.Period.UptimeRuns
import UsageBilling.Proofs.Period.WholeWindows
import UsageBilling.Proofs.Period.WindowWidths
import UsageBilling.Proofs.Period.Windows
import UsageBilling.Proofs.Rating.Costs
import UsageBilling.Proofs.Rating.Growth
import UsageBilling.Proofs.Rating.Invoice
import UsageBilling.Proofs.Rating.Lines
import UsageBilling.Proofs.Rating.Overflow
import UsageBilling.Proofs.Rating.Prices
import UsageBilling.Proofs.Rating.Provisioning
import UsageBilling.Proofs.Rating.Repetition
import UsageBilling.Proofs.Rating.Subtotals
import UsageBilling.Proofs.Rating.Tariffs
import UsageBilling.Proofs.Rating.TimeUnits
import UsageBilling.Proofs.Rating.Units
import UsageBilling.Proofs.Reconciler.Commutation
import UsageBilling.Proofs.Reconciler.Covering
import UsageBilling.Proofs.Reconciler.Deliveries
import UsageBilling.Proofs.Reconciler.Lookups
import UsageBilling.Proofs.Reconciler.OneKey
import UsageBilling.Proofs.Reconciler.Packing
import UsageBilling.Proofs.Reconciler.Quantity
import UsageBilling.Proofs.Reconciler.Reading
import UsageBilling.Proofs.Reconciler.ReadingOrder
import UsageBilling.Proofs.Reconciler.Replay
import UsageBilling.Proofs.Reconciler.RestoredTexts
import UsageBilling.Proofs.Reconciler.Snapshots
import UsageBilling.Proofs.Reconciler.Tenants
import UsageBilling.Proofs.Reconciler.Time
import UsageBilling.Proofs.Reconciler.Tracks
import UsageBilling.Proofs.Reconciler.Weights
import UsageBilling.Proofs.Reconciler.WindowQuantities
import UsageBilling.Proofs.Reconciler.Windows
import UsageBilling.Proofs.Reconciler.Writes
import UsageBilling.Proofs.SampleStream
import UsageBilling.Proofs.SnapshotCache
import UsageBilling.Proofs.SnapshotCache.Eviction
import UsageBilling.Proofs.SnapshotCache.Forgetting
import UsageBilling.Proofs.SnapshotCache.Lifetimes
import UsageBilling.Proofs.SnapshotCache.Recency
import UsageBilling.Proofs.SnapshotCache.Stamps
import UsageBilling.Proofs.SnapshotStore
import UsageBilling.Proofs.Sorting
import UsageBilling.Proofs.Table
import UsageBilling.Proofs.Text.Integer
import UsageBilling.Proofs.Traversal
import UsageBilling.Proofs.Window.Division
import UsageBilling.Proofs.Window.Partition
import UsageBilling.Proofs.Window.Timeline
import UsageBilling.Rating
import UsageBilling.Reconciler.Basic
import UsageBilling.Reconciler.Packing
import UsageBilling.Sample
import UsageBilling.SampleStream
import UsageBilling.Settings
import UsageBilling.SnapshotStore
import UsageBilling.Table
import UsageBilling.Tariff
import UsageBilling.Text.Blank
import UsageBilling.Text.CaseTable
import UsageBilling.Text.Integer
import UsageBilling.Text.LowerCase
import UsageBilling.Usage
import UsageBilling.Window
