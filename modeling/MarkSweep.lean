import MarkSweep.AuditedHeap
import MarkSweep.BlockHeap
import MarkSweep.Collector
import MarkSweep.FaultyHeap
import MarkSweep.Proofs.BlockMap
import MarkSweep.Proofs.Header
import MarkSweep.Proofs.Memory
import MarkSweep.Proofs.Memory.Access
import MarkSweep.Proofs.BlockHeap.Headers
import MarkSweep.Proofs.BlockHeap.Valid
import MarkSweep.Proofs.BlockHeap.Allocation
import MarkSweep.Proofs.BlockHeap.Sweep
import MarkSweep.Proofs.BlockHeap.Upkeep
import MarkSweep.Proofs.Marking.Graph
import MarkSweep.Proofs.Marking.Steps
import MarkSweep.Proofs.Marking.Underway
import MarkSweep.Proofs.Marking.Traversal
import MarkSweep.Proofs.Marking.Loop
import MarkSweep.Proofs.Collector.Collection
import MarkSweep.Proofs.RootSet
import MarkSweep.Proofs.RootSet.Stacks
import MarkSweep.Proofs.Collector.Run
import MarkSweep.Proofs.Collector.Exactness
import MarkSweep.Proofs.Collector.Discipline
import MarkSweep.Proofs.Collector.Scopes
import MarkSweep.Proofs.Collector.RootOrder
import MarkSweep.Proofs.Collector.Accounting
import MarkSweep.Proofs.Collector.Exhaustion
import MarkSweep.Proofs.Collector.BreadthFirst
import MarkSweep.Proofs.BlockHeap.History
import MarkSweep.Proofs.BlockHeap.Space
import MarkSweep.Proofs.BlockHeap.Table
import MarkSweep.Proofs.BlockHeap.Enclosure
import MarkSweep.Proofs.BlockHeap.Frames
import MarkSweep.Proofs.BlockHeap.FirstFit
import MarkSweep.Proofs.Moves
import MarkSweep.Proofs.Collector.Frames
import MarkSweep.Proofs.Alike
import MarkSweep.Proofs.AuditedHeap.Audit
import MarkSweep.Proofs.AuditedHeap.Detection
import MarkSweep.Proofs.AuditedHeap.Payloads
import MarkSweep.Proofs.AuditedHeap.Transparency
import MarkSweep.Proofs.AuditedHeap.FailStop
import MarkSweep.Proofs.BlockMap.Neighbours
import MarkSweep.Proofs.Layout.Addressing
import MarkSweep.Proofs.BlockMap.Canonical
import MarkSweep.Proofs.BlockHeap.FreeOrder
import MarkSweep.Proofs.BlockHeap.SweepOutcome
import MarkSweep.Proofs.BlockHeap.Refusals
import MarkSweep.Proofs.BlockHeap.FreshObject
import MarkSweep.Proofs.AuditedHeap.Exposed
import MarkSweep.Proofs.AuditedHeap.Report
import MarkSweep.Proofs.AuditedHeap.Retention
import MarkSweep.Proofs.Collector.Repeat
import MarkSweep.Proofs.Trace.Layouts
import MarkSweep.Proofs.Memory.Access
