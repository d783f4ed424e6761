import ValueHeap.Report
import ValueHeap.Realm
import ValueHeap.Document.Import
import ValueHeap.Document.Export
import ValueHeap.Document.Record
import ValueHeap.Stream.Value
import ValueHeap.Proofs.Operations
import ValueHeap.Proofs.Reclaim
import ValueHeap.Proofs.Reachability
import ValueHeap.Proofs.Sweep
import ValueHeap.Proofs.Filling
import ValueHeap.Proofs.Copy
import ValueHeap.Proofs.Ownership
import ValueHeap.Proofs.Calls
import ValueHeap.Proofs.World
import ValueHeap.Proofs.Cascade
import ValueHeap.Proofs.Changes
import ValueHeap.Proofs.Effects
import ValueHeap.Proofs.Lifetimes
import ValueHeap.Proofs.Rounding
import ValueHeap.Proofs.Documents
import ValueHeap.Proofs.Contents
import ValueHeap.Proofs.Objects
import ValueHeap.Proofs.Histories
import ValueHeap.Proofs.Wire
import ValueHeap.Proofs.Compensation
import ValueHeap.Proofs.Rollback
import ValueHeap.Proofs.Strokes
import ValueHeap.Proofs.Sizes
import ValueHeap.Proofs.Listeners
import ValueHeap.Proofs.Series.Values
import ValueHeap.Proofs.Series.Graphs
import ValueHeap.Proofs.Series.Calls
import ValueHeap.Proofs.Journals
import ValueHeap.Proofs.Solvency
import ValueHeap.Proofs.Guarantees
import ValueHeap.Proofs.Groves
import ValueHeap.Proofs.Planting
import ValueHeap.Proofs.Refusals
import ValueHeap.Proofs.Interchange
import ValueHeap.Proofs.Channels
import ValueHeap.Proofs.Preorder
import ValueHeap.Proofs.Exporting
import ValueHeap.Proofs.Importing
import ValueHeap.Proofs.Indiscernibles
import ValueHeap.Proofs.Steps
import ValueHeap.Proofs.Progressions
import ValueHeap.Proofs.Traces
import ValueHeap.Proofs.Recordings
import ValueHeap.Proofs.Accounts
import ValueHeap.Proofs.Agreement
import ValueHeap.Proofs.Enforcement
import ValueHeap.Proofs.Occupancy
import ValueHeap.Proofs.Suggestions
import ValueHeap.Proofs.Overflows
import ValueHeap.Proofs.Differences
