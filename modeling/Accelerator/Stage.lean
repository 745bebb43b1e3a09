/-!
# Pipeline stages

An instruction crosses six stages. Within a cycle the stages are evaluated one after the other, from
the last to the first or from the first to the last.
-/

namespace Accelerator

/-- The stages, in the order in which an instruction crosses them. -/
inductive Stage where
  | schedule
  | fetch
  | decode
  | read
  | execute
  | write
deriving DecidableEq, Inhabited

namespace Stage

/-- Every stage, first to last. -/
def all : List Stage := [schedule, fetch, decode, read, execute, write]

/-- The stages that hand a slot on to a next one: all but the last. -/
def handingOn : List Stage := [schedule, fetch, decode, read, execute]

/-- Position among the stages, from 0. -/
def index : Stage → Nat
  | schedule => 0
  | fetch => 1
  | decode => 2
  | read => 3
  | execute => 4
  | write => 5

def name : Stage → String
  | schedule => "schedule"
  | fetch => "fetch"
  | decode => "decode"
  | read => "read"
  | execute => "execute"
  | write => "write"

end Stage

/-- The order in which the stages of one unit are evaluated within a cycle. -/
inductive StageOrder where
  /-- From the last stage to the first, as a pipeline drains. -/
  | reverse
  /-- From the first stage to the last. -/
  | forward
deriving DecidableEq

instance : Inhabited StageOrder := ⟨.reverse⟩

/-- The stages in the order in which they are evaluated. -/
def StageOrder.stages : StageOrder → List Stage
  | reverse => Stage.all.reverse
  | forward => Stage.all

end Accelerator
