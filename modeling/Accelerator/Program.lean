import Accelerator.Instruction

/-!
# Programs

Instruction models without a state of their own: a straight-line program that every wavefront runs,
and a table with a program for each work-group. Past the end of a program there is always an `end`.
-/

namespace Accelerator

/-- One straight-line program for every wavefront. -/
structure SyntheticProgram where
  /-- The instructions before the final `end`. -/
  kinds : List InstKind
  /-- Address of the buffer that loads and stores index into. -/
  baseAddr : Nat := 0
deriving DecidableEq, Inhabited

namespace SyntheticProgram

/-- The program up to its first `end`: what follows can never run. -/
def ofKinds (kinds : List InstKind) (baseAddr : Nat := 0) : SyntheticProgram where
  kinds := kinds.takeWhile (· != .end)
  baseAddr

/-- How many instructions a wavefront runs, the final `end` among them. -/
def length (p : SyntheticProgram) : Nat := p.kinds.length + 1

/-- The instruction at `pc`. -/
def instruction (p : SyntheticProgram) (pc : Nat) : Instruction where
  pc
  kind := p.kinds.getD pc .end

instance : InstructionModel SyntheticProgram where
  name _ := "synthetic"
  fetch p _ pc := (p.instruction pc, p)
  execute p w inst items := (w.request? p.baseAddr inst.kind items, p)
  holdsExecute p w inst items := w.holdsRequest p.baseAddr inst.kind items

end SyntheticProgram

/-- A program for each work-group. A program runs to its first `end`, or to its length. -/
structure GroupPrograms where
  programs : List (List InstKind)
  baseAddr : Nat := 0
deriving DecidableEq, Inhabited

namespace GroupPrograms

/-- The instruction at `pc` of a work-group's program. -/
def instruction (p : GroupPrograms) (group pc : Nat) : Instruction where
  pc
  kind := (p.programs.getD group []).getD pc .end

instance : InstructionModel GroupPrograms where
  name _ := "per-group"
  fetch p w pc := (p.instruction w.group pc, p)
  execute p w inst items := (w.request? p.baseAddr inst.kind items, p)
  holdsExecute p w inst items := w.holdsRequest p.baseAddr inst.kind items

end GroupPrograms

/-- The instruction models a device can be given. -/
inductive Program where
  | synthetic (program : SyntheticProgram)
  | perGroup (programs : GroupPrograms)
deriving Inhabited

instance : InstructionModel Program where
  name
    | .synthetic p => InstructionModel.name p
    | .perGroup p => InstructionModel.name p
  fetch
    | .synthetic p, w, pc => (InstructionModel.fetch p w pc).map id .synthetic
    | .perGroup p, w, pc => (InstructionModel.fetch p w pc).map id .perGroup
  decode
    | .synthetic p, inst => (InstructionModel.decode p inst).map id .synthetic
    | .perGroup p, inst => (InstructionModel.decode p inst).map id .perGroup
  execute
    | .synthetic p, w, inst, items => (InstructionModel.execute p w inst items).map id .synthetic
    | .perGroup p, w, inst, items => (InstructionModel.execute p w inst items).map id .perGroup
  holdsExecute
    | .synthetic p, w, inst, items => InstructionModel.holdsExecute p w inst items
    | .perGroup p, w, inst, items => InstructionModel.holdsExecute p w inst items
  write
    | .synthetic p, w, inst => (InstructionModel.write p w inst).map id .synthetic
    | .perGroup p, w, inst => (InstructionModel.write p w inst).map id .perGroup

end Accelerator
