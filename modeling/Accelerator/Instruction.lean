import Accelerator.Wavefront

/-!
# Instructions

The pipeline decides when a stage works on an instruction; an *instruction model* decides what that
means. A model may keep a state of its own, and every call answers with the state that follows.
-/

namespace Accelerator

/-- What an instruction does. -/
inductive InstKind where
  | alu
  | load
  | store
  /-- Retires the wavefront once it is written back. -/
  | «end»
deriving DecidableEq, Inhabited

namespace InstKind

def all : List InstKind := [alu, load, store, «end»]

def name : InstKind → String
  | alu => "alu"
  | load => "load"
  | store => "store"
  | «end» => "end"

end InstKind

/-- One instruction of a program. -/
structure Instruction where
  pc : Nat
  kind : InstKind
  decoded : Bool := false
deriving DecidableEq, Inhabited

/-- What a memory access does. -/
inductive AccessKind where
  | load
  | store
deriving DecidableEq, Inhabited

namespace AccessKind

def all : List AccessKind := [load, store]

def name : AccessKind → String
  | load => "Load"
  | store => "Store"

end AccessKind

/-- A run of bytes that an instruction reads or writes. -/
structure MemoryRequest where
  addr : Nat
  bytes : Nat
  kind : AccessKind
deriving DecidableEq, Inhabited

/-- The meaning of instructions, for wavefronts that run them. -/
class InstructionModel (ι : Type) where
  name : ι → String
  /-- The instruction at `pc` of a wavefront's program. -/
  fetch : ι → Wavefront → (pc : Nat) → Instruction × ι
  decode : ι → Instruction → Instruction × ι :=
    fun model inst => ({ inst with decoded := true }, model)
  /-- Execute the given items of a wavefront. An instruction that touches memory answers with the
  bytes it touches. -/
  execute : ι → Wavefront → Instruction → (items : Span) → Option MemoryRequest × ι
  /-- Whether words hold the sums that `execute` takes. -/
  holdsExecute : ι → Wavefront → Instruction → (items : Span) → Bool :=
    fun _ _ _ _ => true
  /-- Write results back. The answer tells whether the wavefront has retired. -/
  write : ι → Wavefront → Instruction → Bool × ι :=
    fun model _ inst => (inst.kind == .end, model)

/-- Bytes that a load or store touches for each work-item. -/
def wordSize : Nat := 4

/-- The kind of memory access an instruction makes, for the kinds that make one. -/
def InstKind.access? : InstKind → Option AccessKind
  | load => some .load
  | store => some .store
  | alu | «end» => none

/-- Loads and stores touch one word per item, in the order of the items' global numbers from `base`
on. Without items nothing is touched. -/
def Wavefront.request? (w : Wavefront) (base : Nat) (kind : InstKind) (items : Span) :
    Option MemoryRequest :=
  match kind.access? with
  | none => none
  | some access =>
    if items.isEmpty then none
    else some {
      addr := base + w.globalId items.start * wordSize
      bytes := items.length * wordSize
      kind := access }

/-- Whether words hold the sums that a request is made of: the number of the first item and the number
of bytes, which are item counts, and the address. -/
def Wavefront.holdsRequest (w : Wavefront) (base : Nat) (kind : InstKind) (items : Span) : Bool :=
  (w.request? base kind items).all fun request =>
    decide (w.globalId items.start < countBound) && decide (request.bytes < countBound) &&
      decide (request.addr < wordBound)

end Accelerator
