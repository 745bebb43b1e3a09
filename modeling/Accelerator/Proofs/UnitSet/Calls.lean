import Accelerator.Proofs.Session
import Accelerator.Proofs.UnitSet
import Mathlib.Data.List.Infix

/-!
# Calls to a set of units

Whatever a set of units is told to do, in whatever order, it answers as a list of distinct units
would that is only appended to, erased from and cut at its head; and all that can be seen of the
set agrees with that list (`calls_act_on_a_list`).

`UnitSet.Lists` does not say what is stored for units that are no members. Nothing is: a unit is
forgotten when it leaves. So the links are each other's inverse among all units, and who is linked
with whom can be read off the list.
-/

namespace Accelerator.UnitSet

/-! ## Calls -/

/-- The calls that may change a set. -/
inductive Call where
  | push (unit : Nat)
  | remove (unit : Nat)
  | pop
deriving DecidableEq

inductive Answer where
  /-- Did the unit join or leave? -/
  | changed (yes : Bool)
  /-- The member that left. -/
  | left (unit : Option Nat)
deriving DecidableEq

/-- Was there nothing to be done? -/
def Answer.isRefusal : Answer → Bool
  | changed yes => !yes
  | left unit => unit.isNone

/-- What a set answers to a call, and what the call makes of it. -/
def perform (s : UnitSet) : Call → Answer × UnitSet
  | .push unit => (.changed (s.push? unit).isSome, s.push unit)
  | .remove unit => (.changed (s.remove? unit).isSome, s.remove unit)
  | .pop =>
    match s.pop? with
    | some (unit, t) => (.left unit, t)
    | none => (.left none, s)

/-- The same call to a list of distinct units below `capacity`. -/
def Call.onList (capacity : Nat) (l : List Nat) : Call → Answer × List Nat
  | .push unit =>
    if unit < capacity ∧ unit ∉ l then (.changed true, l ++ [unit]) else (.changed false, l)
  | .remove unit => if unit ∈ l then (.changed true, l.erase unit) else (.changed false, l)
  | .pop => (.left l.head?, l.tail)

/-! ## What can be seen of a set -/

/-- Following the links from a unit on comes to an end, after the given units. -/
inductive Yields (s : UnitSet) : (start : Option Nat) → List Nat → Prop where
  | done : s.Yields none []
  | next {unit : Nat} {rest : List Nat} (stored : unit < s.next.size)
      (yields : s.Yields (s.after unit) rest) : s.Yields (some unit) (unit :: rest)

/-- All that can be seen of a set is what the list says. -/
structure Shows (s : UnitSet) (l : List Nat) : Prop where
  distinct : l.Nodup
  inside : ∀ unit ∈ l, unit < s.capacity
  size : s.size = l.length
  isEmpty : s.isEmpty = l.isEmpty
  contains : ∀ unit, s.contains unit = decide (unit ∈ l)
  front : s.front = l.head?
  yields : s.Yields s.front l
  toList : s.toList = l
  /-- Neighbours in the list are linked, and no other units are. -/
  after : ∀ unit other, s.after unit = some other ↔ [unit, other] <:+: l
  inverse : ∀ unit other, s.before other = some unit ↔ s.after unit = some other

/-- Nothing is stored for units that are no members. -/
structure Clean (s : UnitSet) (l : List Nat) : Prop extends Lists s l where
  before : ∀ unit ∉ l, s.before unit = none
  after : ∀ unit ∉ l, s.after unit = none

variable {s : UnitSet} {l : List Nat} {unit : Nat}

theorem Segment.yields {earlier : Option Nat} (linked : s.Segment earlier l none)
    (stored : ∀ unit ∈ l, unit < s.next.size) : s.Yields l.head? l := by
  induction l generalizing earlier with
  | nil => exact .done
  | cons unit rest ih =>
      obtain ⟨-, after, others⟩ := linked
      rw [Option.or_none] at after
      refine .next (stored unit (List.mem_cons_self ..)) ?_
      rw [after]
      exact ih others fun other member => stored other (List.mem_cons_of_mem _ member)

theorem Clean.after_eq_some_iff (clean : s.Clean l) (unit other : Nat) :
    s.after unit = some other ↔ [unit, other] <:+: l := by
  constructor
  · intro linked
    have member : unit ∈ l := by
      by_contra stranger
      rw [clean.after unit stranger] at linked
      cases linked
    obtain ⟨xs, ys, rfl⟩ := List.append_of_mem member
    rw [clean.neighbours.2] at linked
    obtain ⟨zs, rfl⟩ := List.head?_eq_some_iff.mp linked
    exact ⟨xs, zs, by simp⟩
  · rintro ⟨xs, zs, rfl⟩
    have lists : s.Lists (xs ++ unit :: (other :: zs)) := by simpa using clean.toLists
    rw [lists.neighbours.2, List.head?_cons]

theorem Clean.before_eq_some_iff (clean : s.Clean l) (unit other : Nat) :
    s.before other = some unit ↔ [unit, other] <:+: l := by
  constructor
  · intro linked
    have member : other ∈ l := by
      by_contra stranger
      rw [clean.before other stranger] at linked
      cases linked
    obtain ⟨xs, ys, rfl⟩ := List.append_of_mem member
    rw [clean.neighbours.1] at linked
    obtain ⟨zs, rfl⟩ := List.getLast?_eq_some_iff.mp linked
    exact ⟨zs, ys, by simp⟩
  · rintro ⟨xs, zs, rfl⟩
    have lists : s.Lists ((xs ++ [unit]) ++ other :: zs) := by simpa using clean.toLists
    rw [lists.neighbours.1, List.getLast?_concat]

theorem Clean.shows (clean : s.Clean l) : s.Shows l where
  distinct := clean.distinct
  inside _ member := clean.lt_capacity member
  size := clean.size
  isEmpty := clean.isEmpty_eq
  contains unit := by rw [clean.contains_eq, List.contains_eq_mem]
  front := clean.front_eq
  yields := by
    rw [clean.front_eq]
    exact clean.linked.yields fun unit member => clean.nextSize ▸ clean.lt_capacity member
  toList := clean.toList_eq
  after := clean.after_eq_some_iff
  inverse unit other := by rw [clean.before_eq_some_iff, clean.after_eq_some_iff]

/-! ## New sets -/

theorem before_eq_none_of_le (sizes : s.prev.size = s.capacity) (outside : s.capacity ≤ unit) :
    s.before unit = none := by
  have absent : s.prev[unit]? = none := Array.getElem?_eq_none (sizes ▸ outside)
  simp [before, absent]

theorem after_eq_none_of_le (sizes : s.next.size = s.capacity) (outside : s.capacity ≤ unit) :
    s.after unit = none := by
  have absent : s.next[unit]? = none := Array.getElem?_eq_none (sizes ▸ outside)
  simp [after, absent]

theorem clean_empty (capacity : Nat) : (empty capacity).Clean [] where
  toLists := lists_empty capacity
  before unit _ := by
    rw [before, empty, Array.getD_eq_getD_getElem?, Array.getElem?_replicate]
    split <;> rfl
  after unit _ := by
    rw [after, empty, Array.getD_eq_getD_getElem?, Array.getElem?_replicate]
    split <;> rfl

/-- Every unit below the capacity is a member of the set of all units. -/
theorem clean_full (capacity : Nat) : (full capacity).Clean (List.range capacity) where
  toLists := lists_full capacity
  before unit stranger := by
    refine before_eq_none_of_le (lists_full capacity).prevSize ?_
    rw [capacity_full]
    exact Nat.le_of_not_lt (mt List.mem_range.mpr stranger)
  after unit stranger := by
    refine after_eq_none_of_le (lists_full capacity).nextSize ?_
    rw [capacity_full]
    exact Nat.le_of_not_lt (mt List.mem_range.mpr stranger)

/-! ## What calls do -/

theorem Clean.link (clean : s.Clean l) (free : unit < s.capacity) (stranger : unit ∉ l) :
    (s.link unit).Clean (l ++ [unit]) where
  toLists := clean.toLists.link free stranger
  before other outside := by
    obtain ⟨absent, differs⟩ : other ∉ l ∧ other ≠ unit := by simpa using outside
    rw [before_link clean.toLists free, if_neg differs, clean.before other absent]
  after other outside := by
    obtain ⟨absent, differs⟩ : other ∉ l ∧ other ≠ unit := by simpa using outside
    have inner : s.tail ≠ some other := fun last =>
      absent (List.mem_of_getLast? (clean.tail ▸ last))
    rw [after_link clean.toLists free, if_neg inner, if_neg differs, clean.after other absent]

theorem eq_or_notMem_of_notMem_erase {other : Nat} (outside : other ∉ l.erase unit) :
    other = unit ∨ other ∉ l := by
  by_contra! stays
  exact outside ((List.mem_erase_of_ne stays.1).mpr stays.2)

/-- A unit that leaves is forgotten, and was the only one to know its neighbours. -/
theorem Clean.unlink (clean : s.Clean l) (member : unit ∈ l) :
    (s.unlink unit).Clean (l.erase unit) where
  toLists := clean.unlink_erase member
  before other outside := by
    rcases Nat.lt_or_ge other s.capacity with inside | beyond
    · rw [before_unlink clean.prevSize other inside]
      rcases eq_or_notMem_of_notMem_erase outside with rfl | absent
      · rw [if_pos rfl]
      · have apart : s.after unit ≠ some other := fun linked =>
          absent (((clean.after_eq_some_iff unit other).mp linked).subset (by simp))
        rw [if_neg apart, clean.before other absent, ite_self]
    · refine before_eq_none_of_le ?_ (capacity_unlink (s := s) ▸ beyond)
      exact (clean.unlink_erase member).prevSize
  after other outside := by
    rcases Nat.lt_or_ge other s.capacity with inside | beyond
    · rw [after_unlink clean.nextSize other inside]
      rcases eq_or_notMem_of_notMem_erase outside with rfl | absent
      · rw [if_pos rfl]
      · have apart : s.before unit ≠ some other := fun linked =>
          absent (((clean.before_eq_some_iff other unit).mp linked).subset (by simp))
        rw [if_neg apart, clean.after other absent, ite_self]
    · refine after_eq_none_of_le ?_ (capacity_unlink (s := s) ▸ beyond)
      exact (clean.unlink_erase member).nextSize

theorem Clean.canJoin_iff (clean : s.Clean l) (unit : Nat) :
    s.canJoin unit = true ↔ unit < s.capacity ∧ unit ∉ l := by
  simp [canJoin, clean.contains_eq]

@[simp] theorem isSome_push? (s : UnitSet) (unit : Nat) :
    (s.push? unit).isSome = s.canJoin unit := by
  unfold push?
  split <;> simp_all

@[simp] theorem isSome_remove? (s : UnitSet) (unit : Nat) :
    (s.remove? unit).isSome = s.contains unit := by
  unfold remove?
  split <;> simp_all

/-- A call does to a set what it does to the list of its members. -/
theorem Clean.perform (clean : s.Clean l) (call : Call) :
    (s.perform call).1 = (call.onList s.capacity l).1 ∧
      (s.perform call).2.Clean (call.onList s.capacity l).2 := by
  cases call with
  | push unit =>
      by_cases joins : unit < s.capacity ∧ unit ∉ l
      · have able := (clean.canJoin_iff unit).mpr joins
        simpa [UnitSet.perform, Call.onList, push, able, joins] using clean.link joins.1 joins.2
      · have unable := Bool.eq_false_iff.mpr (mt (clean.canJoin_iff unit).mp joins)
        simpa [UnitSet.perform, Call.onList, push, unable, joins] using clean
  | remove unit =>
      by_cases member : unit ∈ l
      · have here := (clean.member unit).mpr member
        simpa [UnitSet.perform, Call.onList, remove, here, member] using clean.unlink member
      · have absent := Bool.eq_false_iff.mpr (mt (clean.member unit).mp member)
        simpa [UnitSet.perform, Call.onList, remove, absent, member] using clean
  | pop =>
      cases l with
      | nil =>
          have nothing : s.pop? = none := by simp [pop?, clean.head]
          simp only [UnitSet.perform, Call.onList, nothing]
          exact ⟨rfl, clean⟩
      | cons unit rest =>
          have member : unit ∈ unit :: rest := List.mem_cons_self ..
          have popped : s.pop? = some (unit, s.unlink unit) := by
            simp [pop?, clean.head, remove, (clean.member unit).mpr member]
          have left := clean.unlink member
          rw [List.erase_cons_head] at left
          simp only [UnitSet.perform, Call.onList, popped]
          exact ⟨rfl, left⟩

/-- A call that is refused changes nothing. -/
theorem perform_of_isRefusal {call : Call} (refused : (s.perform call).1.isRefusal = true) :
    (s.perform call).2 = s := by
  cases call with
  | push unit =>
      have unable : s.canJoin unit = false := by simpa [perform, Answer.isRefusal] using refused
      simp [perform, push, unable]
  | remove unit =>
      have absent : s.contains unit = false := by simpa [perform, Answer.isRefusal] using refused
      simp [perform, remove, absent]
  | pop =>
      unfold perform at refused ⊢
      rcases popped : s.pop? with _ | ⟨unit, t⟩
      · rfl
      · rw [popped] at refused
        cases refused

@[simp] theorem capacity_perform (s : UnitSet) (call : Call) :
    (s.perform call).2.capacity = s.capacity := by
  cases call with
  | push unit => exact capacity_push
  | remove unit => exact capacity_remove
  | pop =>
      unfold perform pop?
      rcases s.head with _ | unit
      · rfl
      · exact capacity_remove

/-! ## Sessions -/

/-- How a set may come about. -/
inductive Origin where
  /-- Without members. -/
  | empty
  /-- With all units as members. -/
  | full

def Origin.set (capacity : Nat) : Origin → UnitSet
  | empty => .empty capacity
  | full => .full capacity

def Origin.members (capacity : Nat) : Origin → List Nat
  | empty => []
  | full => List.range capacity

theorem Origin.clean (origin : Origin) (capacity : Nat) :
    (origin.set capacity).Clean (origin.members capacity) := by
  cases origin with
  | empty => exact clean_empty capacity
  | full => exact clean_full capacity

theorem Origin.capacity_set (origin : Origin) (capacity : Nat) :
    (origin.set capacity).capacity = capacity := by
  cases origin with
  | empty => simp [set, UnitSet.empty, UnitSet.capacity]
  | full => exact capacity_full capacity

/-- After any calls a set has given the answers that a list of distinct units gives, and shows
itself as that list in every way. A call that it refuses leaves it as it is. -/
theorem calls_act_on_a_list (origin : Origin) (capacity : Nat) (calls : List Call) :
    let (answers, s) := session perform (origin.set capacity) calls
    let (expected, l) := session (Call.onList capacity) (origin.members capacity) calls
    answers = expected ∧ s.capacity = capacity ∧ s.Shows l ∧
      ∀ call, (s.perform call).1.isRefusal = true → (s.perform call).2 = s := by
  let Same (s : UnitSet) (l : List Nat) : Prop := s.Clean l ∧ s.capacity = capacity
  have alike : ∀ (s : UnitSet) (l : List Nat) (call : Call), Same s l →
      (s.perform call).1 = (call.onList capacity l).1 ∧
        Same (s.perform call).2 (call.onList capacity l).2 := by
    rintro s l call ⟨clean, rfl⟩
    obtain ⟨answer, after⟩ := clean.perform call
    exact ⟨answer, after, capacity_perform s call⟩
  obtain ⟨answers, clean, size⟩ := session_alike (g := Call.onList capacity) alike
    ⟨origin.clean capacity, origin.capacity_set capacity⟩ calls
  exact ⟨answers, size, clean.shows, fun _ => perform_of_isRefusal⟩

/-- The middle, the first and the last unit leave, the last one only once; one joins again. -/
example : (session perform (full 5)
    [.remove 2, .remove 0, .remove 4, .remove 4, .push 0, .pop]).2.toList = [3, 0] := rfl

end Accelerator.UnitSet
