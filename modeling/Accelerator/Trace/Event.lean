import Accelerator.Document.Decode
import Accelerator.Dim3
import Accelerator.Stage

/-!
# Trace events

Every dispatch, every firing of a stage and every completion is an event. An event is written as a
table of the fields that it has, and read back from such a table or from a list of all its fields.

Events are ordered field by field, in the order in which the fields are declared. A field that is
absent comes before one that is present.
-/

namespace Accelerator

/-- What happened. -/
inductive Action where
  /-- A work-group was dispatched to a compute unit. -/
  | run
  /-- A stage took a slot out of the latch before it. -/
  | consume
  /-- A stage put a slot into the latch after it. -/
  | produce
  /-- The execute stage made a memory request. -/
  | memoryIssue
  /-- A wavefront executed its last instruction. -/
  | retire
  /-- A work-group is done, and its compute unit idle again. -/
  | complete
deriving DecidableEq, Inhabited

namespace Action

def all : List Action := [run, consume, produce, memoryIssue, retire, complete]

def name : Action → String
  | run => "run"
  | consume => "consume"
  | produce => "produce"
  | memoryIssue => "memory_issue"
  | retire => "retire"
  | complete => "complete"

/-- Position among the actions, from 0. -/
def index : Action → Nat
  | run => 0
  | consume => 1
  | produce => 2
  | memoryIssue => 3
  | retire => 4
  | complete => 5

end Action

structure TraceEvent where
  cycle : Nat
  unit : Nat
  group : Nat
  wavefront : Option Nat := none
  stage : Option Stage := none
  action : Action
  /-- The cycle in which a consumed slot had been produced. -/
  producedAt : Option Nat := none
deriving DecidableEq, Inhabited

namespace TraceEvent

/-- The same event of a wavefront at a stage. -/
def atStage (e : TraceEvent) (stage : Stage) (wavefront : Nat) : TraceEvent :=
  { e with stage := some stage, wavefront := some wavefront }

/-- The same event, about a slot produced at a given cycle. -/
def withProducedAt (e : TraceEvent) (cycle : Nat) : TraceEvent :=
  { e with producedAt := some cycle }

/-- Position of a value that may be absent, the absent one first. -/
def rank : Option Nat → Nat
  | none => 0
  | some n => n + 1

/-- The fields as numbers, the most significant first. -/
def key (e : TraceEvent) : List Nat :=
  [e.cycle, e.unit, e.group, rank e.wavefront, rank (e.stage.map Stage.index), e.action.index,
    rank e.producedAt]

/-- The order of events: no field decides before a more significant one has. -/
def le (a b : TraceEvent) : Bool := !b.key.lex a.key Nat.blt

/-- Events in ascending order. -/
def sort (events : List TraceEvent) : List TraceEvent := events.mergeSort le

/-- An entry for a value that may be absent. -/
def entry? (name : String) (value : Option Tree) : List (String × Tree) :=
  match value with
  | some t => [(name, t)]
  | none => []

/-- The fields that the event has, under their names. -/
def toTree (e : TraceEvent) : Tree :=
  .table ([("cycle", .natural e.cycle), ("compute_unit", .natural e.unit),
      ("work_group", .natural e.group)]
    ++ entry? "wavefront" (e.wavefront.map .natural)
    ++ entry? "stage" (e.stage.map fun s => .text s.name)
    ++ [("action", .text e.action.name)]
    ++ entry? "produced_at" (e.producedAt.map .natural))

/-- The names of the fields, in the order of their declaration. -/
def fieldNames : List String :=
  ["cycle", "compute_unit", "work_group", "wavefront", "stage", "action", "produced_at"]

def ofTree? (t : Tree) : Option TraceEvent := do
  let word := Tree.natural? wordBound
  match ← t.fields? .json fieldNames false with
  | [cycle, unit, group, wavefront, stage, action, producedAt] =>
    return {
      cycle := ← required word cycle
      unit := ← required word unit
      group := ← required word group
      wavefront := ← fieldOr none (Tree.optional? word) wavefront
      stage := ← fieldOr none
        (Tree.optional? (Tree.variant? .json Stage.all Stage.name)) stage
      action := ← required (Tree.variant? .json Action.all Action.name) action
      producedAt := ← fieldOr none (Tree.optional? word) producedAt }
  | _ => none

end TraceEvent

end Accelerator
