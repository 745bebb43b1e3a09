import Accelerator.Sums
import Accelerator.NdRange
import Accelerator.Latch
import Accelerator.Instruction
import Accelerator.Lane
import Accelerator.Program
import Accelerator.Queue
import Accelerator.Memory
import Accelerator.Memory.Cache
import Accelerator.Memory.Hierarchy
import Accelerator.Memory.Model
import Accelerator.UnitSet
import Accelerator.Placement
import Accelerator.Document.Tree
import Accelerator.Document.Decode
import Accelerator.Document.Scan
import Accelerator.Document.Json.Printer
import Accelerator.Document.Json.Parser
import Accelerator.Document.Toml.Quoted
import Accelerator.Document.Toml.Number
import Accelerator.Document.Toml.Section
import Accelerator.Document.Toml.Parser
import Accelerator.Trace.Event
import Accelerator.Trace.Sink
import Accelerator.Config.Basic
import Accelerator.Config.Codec
import Accelerator.Config.Load
import Accelerator.ComputeUnit.Basic
import Accelerator.ComputeUnit.Plan
import Accelerator.ComputeUnit.Step
import Accelerator.Cluster
import Accelerator.Snapshot
import Accelerator.Snapshot.Publish
import Accelerator.Device.Basic
import Accelerator.Device.Run
import Accelerator.Device.Diagnostics
import Accelerator.Text.Runs
import Accelerator.Text.Blank
import Accelerator.Text.Combining
import Accelerator.Text.Unassigned
import Accelerator.Text.Quoted
import Accelerator.SizeList
import Accelerator.Path
import Accelerator.Files
import Accelerator.FileTree
import Accelerator.CommandLine.Options
import Accelerator.CommandLine.Run
import Accelerator.Main
import Accelerator.Proofs.Attempt
import Accelerator.Proofs.Sink
import Accelerator.Proofs.FileTree
import Accelerator.Proofs.Session
import Accelerator.Proofs.UnitSet
import Accelerator.Proofs.UnitSet.Calls
import Accelerator.Proofs.Placement
import Accelerator.Proofs.Launch
import Accelerator.Proofs.Pipeline.Slots
import Accelerator.Proofs.Pipeline.Firing
import Accelerator.Proofs.Pipeline.Evaluation
import Accelerator.Proofs.Pipeline.Cycle
import Accelerator.Proofs.Pipeline.Soundness
import Accelerator.Proofs.Device.Runs
import Accelerator.Proofs.Device.Transitions
import Accelerator.Proofs.Device.Ownership
import Accelerator.Proofs.Device.Operations
import Accelerator.Proofs.Device.Fresh
import Accelerator.Proofs.Device.SingleOwner
import Accelerator.Proofs.Device.Likeness
import Accelerator.Proofs.Device.StageOrder
import Accelerator.Proofs.Device.Suspension
import Accelerator.Proofs.Device.Resumption
import Accelerator.Proofs.Pipeline.Following
import Accelerator.Proofs.Pipeline.Calls
import Accelerator.Proofs.Pipeline.Passage
import Accelerator.Proofs.Pipeline.Chronicle
import Accelerator.Proofs.Pipeline.Residency
import Accelerator.Proofs.Pipeline.Tariff
import Accelerator.Proofs.Pipeline.Progress
import Accelerator.Proofs.Device.Accounts
import Accelerator.Proofs.Device.Ledger
import Accelerator.Proofs.Device.Termination
import Accelerator.Proofs.Device.Completion
import Accelerator.Proofs.Memory.Cache
import Accelerator.Proofs.Memory.Hierarchy
import Accelerator.Proofs.Memory.DeferredFills
import Accelerator.Proofs.Memory.Timing
import Accelerator.Proofs.Device.Isolation
import Accelerator.Proofs.Device.RefusedDispatch
import Accelerator.Proofs.VisitOrder
import Accelerator.Proofs.Device.Chronicle
import Accelerator.Proofs.Device.Stays
import Accelerator.Proofs.Traversal
import Accelerator.Proofs.Items
import Accelerator.Proofs.Partition
import Accelerator.Proofs.Pipeline.Turns
import Accelerator.Proofs.Pipeline.Words
import Accelerator.Proofs.Device.Visits
import Accelerator.Proofs.Device.Coverage
import Accelerator.Proofs.Device.ExactlyOnce
import Accelerator.Proofs.Device.Timetable
import Accelerator.Proofs.Pipeline.Pace
import Accelerator.Proofs.Device.Batches
import Accelerator.Proofs.Device.Makespan
import Accelerator.Proofs.Pipeline.Timing
import Accelerator.Proofs.Reuse
import Accelerator.Proofs.Device.Equipment
import Accelerator.Proofs.Device.Steps
import Accelerator.Proofs.Device.StepOrder
import Accelerator.Proofs.Device.Sharing
import Accelerator.Proofs.Device.Fleet
import Accelerator.Proofs.Device.Refusals
import Accelerator.Proofs.Device.Rounds
import Accelerator.Proofs.Device.Words
import Accelerator.Proofs.Device.Conservation
import Accelerator.Proofs.Launch.Calls
import Accelerator.Proofs.Rotation
import Accelerator.Proofs.Placement.RoundRobin
import Accelerator.Proofs.Pipeline.Issue
import Accelerator.Proofs.Device.AnyLaunch
import Accelerator.Proofs.Device.RefusedCompletion
import Accelerator.Proofs.Latch
import Accelerator.Proofs.Subwavefronts
import Accelerator.Proofs.Device.WordBounds
import Accelerator.Proofs.Device.WordRuns
import Accelerator.Proofs.Device.Building
import Accelerator.Proofs.Text.Blank
import Accelerator.Proofs.Text.Quoted
import Accelerator.Proofs.SizeList.Number
import Accelerator.Proofs.SizeList
import Accelerator.Proofs.Document.Decode
import Accelerator.Proofs.Document.Json.Grammar
import Accelerator.Proofs.Document.Json.Printer
import Accelerator.Proofs.Document.Scan
import Accelerator.Proofs.Document.Toml.Value
import Accelerator.Proofs.Document.Toml.Line
import Accelerator.Proofs.Document.Toml.Section
import Accelerator.Proofs.Document.Toml.Writing
import Accelerator.Proofs.Config
import Accelerator.Proofs.Config.File
import Accelerator.Proofs.CommandLine
import Accelerator.Proofs.Snapshot
import Accelerator.Proofs.Trace
