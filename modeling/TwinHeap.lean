import TwinHeap.Assoc
import TwinHeap.Bridge
import TwinHeap.Capacity
import TwinHeap.Collector
import TwinHeap.EdgeGraph
import TwinHeap.EdgeGraph.Approximate
import TwinHeap.EdgeGraph.Exact
import TwinHeap.EdgeGraph.Text
import TwinHeap.Event
import TwinHeap.Fault
import TwinHeap.Heap
import TwinHeap.Heap.Collect
import TwinHeap.Heap.History
import TwinHeap.Heap.Path
import TwinHeap.History
import TwinHeap.Journal
import TwinHeap.Json.Number
import TwinHeap.Json.Token
import TwinHeap.Managed
import TwinHeap.Manager
import TwinHeap.Marking.BloomFilter
import TwinHeap.Marking.Ring
import TwinHeap.Marking.SlotSet
import TwinHeap.Marking.Walk
import TwinHeap.Object
import TwinHeap.Parcel
import TwinHeap.Proofs.Bridge.Arrivals
import TwinHeap.Proofs.Bridge.Combined
import TwinHeap.Proofs.Bridge.CycleCompleteness
import TwinHeap.Proofs.Bridge.CycleSafety
import TwinHeap.Proofs.Bridge.FalseRoots
import TwinHeap.Proofs.Bridge.Generations
import TwinHeap.Proofs.Bridge.Graphs
import TwinHeap.Proofs.Bridge.Lasting
import TwinHeap.Proofs.Bridge.LiveSlots
import TwinHeap.Proofs.Bridge.Moves
import TwinHeap.Proofs.Bridge.Pinning
import TwinHeap.Proofs.Bridge.RecordedSlots
import TwinHeap.Proofs.Bridge.ReferentialIntegrity
import TwinHeap.Proofs.Bridge.Referents
import TwinHeap.Proofs.Bridge.Regularity
import TwinHeap.Proofs.Bridge.RootedSlots
import TwinHeap.Proofs.Bridge.Soundness
import TwinHeap.Proofs.Bridge.StrandedSlots
import TwinHeap.Proofs.Bridge.UnlinkWindow
import TwinHeap.Proofs.EdgeGraph.Approximate
import TwinHeap.Proofs.EdgeGraph.Coverage
import TwinHeap.Proofs.EdgeGraph.Edges
import TwinHeap.Proofs.EdgeGraph.Effort
import TwinHeap.Proofs.EdgeGraph.Exact
import TwinHeap.Proofs.EdgeGraph.Gathered
import TwinHeap.Proofs.EdgeGraph.Grammar
import TwinHeap.Proofs.EdgeGraph.Inclusion
import TwinHeap.Proofs.EdgeGraph.Written
import TwinHeap.Proofs.Heap.Balance
import TwinHeap.Proofs.Heap.Cells
import TwinHeap.Proofs.Heap.Change
import TwinHeap.Proofs.Heap.Histories
import TwinHeap.Proofs.Heap.Marks
import TwinHeap.Proofs.Heap.Recurrence
import TwinHeap.Proofs.Heap.RootEntries
import TwinHeap.Proofs.Json.Numerals
import TwinHeap.Proofs.Json.Scanning
import TwinHeap.Proofs.Json.Sequences
import TwinHeap.Proofs.Json.Spelling
import TwinHeap.Proofs.Managed.Recoveries
import TwinHeap.Proofs.Managed.Refusals
import TwinHeap.Proofs.Managed.Restorations
import TwinHeap.Proofs.Managed.Runs
import TwinHeap.Proofs.Marking.Drained
import TwinHeap.Proofs.Marking.Filters
import TwinHeap.Proofs.Marking.Membership
import TwinHeap.Proofs.Marking.Positions
import TwinHeap.Proofs.Marking.Queueing
import TwinHeap.Proofs.Marking.Reaching
import TwinHeap.Proofs.Marking.Surveyed
import TwinHeap.Proofs.Marking.Turns
import TwinHeap.Proofs.Schedule.Timing
import TwinHeap.Proofs.Side.Anchoring
import TwinHeap.Proofs.Side.Collecting
import TwinHeap.Proofs.Side.Coupling
import TwinHeap.Proofs.Side.Crossing
import TwinHeap.Proofs.Side.Filing
import TwinHeap.Proofs.Side.Heeding
import TwinHeap.Proofs.Side.Holding
import TwinHeap.Proofs.Side.Managing
import TwinHeap.Proofs.Side.Modes
import TwinHeap.Proofs.Side.Ownership
import TwinHeap.Proofs.Side.Pending
import TwinHeap.Proofs.Side.Recording
import TwinHeap.Proofs.Side.Repair
import TwinHeap.Proofs.Side.Respect
import TwinHeap.Proofs.Side.Restoring
import TwinHeap.Proofs.Side.Rooting
import TwinHeap.Proofs.Side.Securing
import TwinHeap.Proofs.Side.Severing
import TwinHeap.Proofs.Table.ExportSlots
import TwinHeap.Proofs.Table.Filing
import TwinHeap.Proofs.Table.ImportSlots
import TwinHeap.Proofs.Table.Lookups
import TwinHeap.Proofs.Table.Sharing
import TwinHeap.Proofs.Table.Vacancies
import TwinHeap.Rows
import TwinHeap.Schedule
import TwinHeap.Settings
import TwinHeap.Side
import TwinHeap.Table.Exports
import TwinHeap.Table.Imports
import TwinHeap.Tally
import TwinHeap.Text.Decimal
import TwinHeap.Text.Quoted
import TwinHeap.Text.Unprintable
