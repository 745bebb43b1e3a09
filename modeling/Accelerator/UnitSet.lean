/-!
# Sets of compute units

A set of compute units out of a fixed number of them, in the order in which they joined. The members
form a doubly linked list whose links are stored by unit, so that a unit joins and leaves without a
search. `UnitSet.toList` is the set as a list, first to last.
-/

namespace Accelerator

structure UnitSet where
  /-- For each member, the one that joined before it. -/
  prev : Array (Option Nat)
  /-- For each member, the one that joined after it. -/
  next : Array (Option Nat)
  member : Array Bool
  /-- The member that joined first. -/
  head : Option Nat := none
  /-- The member that joined last. -/
  tail : Option Nat := none
  size : Nat := 0
deriving DecidableEq, Inhabited

namespace UnitSet

/-- The set without members, for the units below `capacity`. -/
def empty (capacity : Nat) : UnitSet where
  prev := .replicate capacity none
  next := .replicate capacity none
  member := .replicate capacity false

/-- Only units below this number can be members. -/
def capacity (s : UnitSet) : Nat := s.member.size

def isEmpty (s : UnitSet) : Bool := s.size == 0

def contains (s : UnitSet) (unit : Nat) : Bool := s.member.getD unit false

/-- The member that joined first. -/
def front (s : UnitSet) : Option Nat := s.head

/-- The member after a given one. -/
def after (s : UnitSet) (unit : Nat) : Option Nat := s.next.getD unit none

/-- The member before a given one. -/
def before (s : UnitSet) (unit : Nat) : Option Nat := s.prev.getD unit none

/-- At most `n` members, from `start` along the links. -/
def walk (s : UnitSet) : (n : Nat) → (start : Option Nat) → List Nat
  | n + 1, some unit => unit :: s.walk n (s.after unit)
  | _, _ => []

/-- The members in the order in which they joined. No list of distinct units is longer than the
capacity. -/
def toList (s : UnitSet) : List Nat := s.walk s.capacity s.head

/-! ## Joining and leaving -/

/-- A unit that may join: one of those below the capacity that is no member yet. -/
def canJoin (s : UnitSet) (unit : Nat) : Bool := unit < s.capacity && !s.contains unit

/-- Make a unit that may join the last member. -/
def link (s : UnitSet) (unit : Nat) : UnitSet :=
  { s with
    prev := s.prev.setIfInBounds unit s.tail
    next :=
      let next := s.next.setIfInBounds unit none
      match s.tail with
      | some last => next.setIfInBounds last (some unit)
      | none => next
    member := s.member.setIfInBounds unit true
    head := if s.tail.isNone then some unit else s.head
    tail := some unit
    size := s.size + 1 }

/-- Take out a member: its neighbours become each other's. -/
def unlink (s : UnitSet) (unit : Nat) : UnitSet :=
  let earlier := s.before unit
  let later := s.after unit
  { s with
    prev :=
      (match later with
        | some l => s.prev.setIfInBounds l earlier
        | none => s.prev).setIfInBounds unit none
    next :=
      (match earlier with
        | some e => s.next.setIfInBounds e later
        | none => s.next).setIfInBounds unit none
    member := s.member.setIfInBounds unit false
    head := if earlier.isNone then later else s.head
    tail := if later.isNone then earlier else s.tail
    size := s.size - 1 }

/-- Let a unit join as the last member. Refused when it is a member already, or no unit at all. -/
def push? (s : UnitSet) (unit : Nat) : Option UnitSet :=
  if s.canJoin unit then some (s.link unit) else none

/-- Let a member leave. Refused when it is not a member. -/
def remove? (s : UnitSet) (unit : Nat) : Option UnitSet :=
  if s.contains unit then some (s.unlink unit) else none

/-- As `push?`; a refused unit leaves the set as it is. -/
def push (s : UnitSet) (unit : Nat) : UnitSet := if s.canJoin unit then s.link unit else s

/-- As `remove?`; a refused unit leaves the set as it is. -/
def remove (s : UnitSet) (unit : Nat) : UnitSet := if s.contains unit then s.unlink unit else s

/-- Let the first member leave. -/
def pop? (s : UnitSet) : Option (Nat × UnitSet) :=
  match s.head with
  | none => none
  | some unit => some (unit, s.remove unit)

/-- The set of all units below `capacity`, in ascending order. -/
def full (capacity : Nat) : UnitSet :=
  (List.range capacity).foldl push (empty capacity)

end UnitSet

end Accelerator
