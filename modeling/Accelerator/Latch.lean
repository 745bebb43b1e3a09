/-!
# Latches

A latch sits between two pipeline stages and holds at most one value twice over: the one that was
committed at the end of an earlier cycle, and the one staged for the next. A stage takes what is
committed and pushes what is to come, so that a value can be taken no earlier than one commit after
it was pushed, whatever order the stages are evaluated in.
-/

namespace Accelerator

/-- A double-buffered place for one value. -/
structure Latch (α : Type) where
  /-- The committed value. -/
  current : Option α := none
  /-- The value staged for the next cycle. -/
  next : Option α := none
deriving DecidableEq, Inhabited

namespace Latch

variable {α : Type}

/-- A latch that holds nothing at all. -/
def empty : Latch α := {}

/-- A value is committed. -/
def isOccupied (l : Latch α) : Bool := l.current.isSome

/-- Neither a committed nor a staged value. -/
def isEmpty (l : Latch α) : Bool := l.current.isNone && l.next.isNone

/-- The committed value, left in place. -/
def peek (l : Latch α) : Option α := l.current

/-- Take the committed value out. -/
def take (l : Latch α) : Option α × Latch α := (l.current, { l with current := none })

/-- Stage a value. Refused while another one is staged. -/
def push? (l : Latch α) (value : α) : Option (Latch α) :=
  match l.next with
  | some _ => none
  | none => some { l with next := some value }

/-- Commit the staged value, if there is one. Refused when the committed value is still in place,
and then both stay where they are. -/
def commit? (l : Latch α) : Option (Latch α) :=
  match l.current, l.next with
  | some _, some _ => none
  | none, some value => some { current := some value, next := none }
  | _, none => some l

end Latch

end Accelerator
