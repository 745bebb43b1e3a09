import Accelerator.UnitSet
import Mathlib.Data.List.Nodup
import Mathlib.Data.List.Perm.Subperm

/-!
# Sets of units as lists

`UnitSet.Lists s l` says that the linked list `s` holds the members `l` in the order in which they
joined. It determines everything that can be asked of a set, and it is kept by joining at the end
and by leaving from any place, which append to the list and erase from it.
-/

namespace Accelerator.UnitSet

/-! ## Links -/

/-- The members `l` are linked with one another, and with what stands before and after them. -/
def Segment (s : UnitSet) : (earlier : Option Nat) → (l : List Nat) → (later : Option Nat) → Prop
  | _, [], _ => True
  | earlier, unit :: rest, later =>
    s.before unit = earlier ∧ s.after unit = rest.head?.or later ∧
      s.Segment (some unit) rest later

/-- The members of a set, in the order in which they joined. -/
structure Lists (s : UnitSet) (l : List Nat) : Prop where
  distinct : l.Nodup
  member : ∀ unit, s.contains unit = true ↔ unit ∈ l
  linked : s.Segment none l none
  head : s.head = l.head?
  tail : s.tail = l.getLast?
  size : s.size = l.length
  prevSize : s.prev.size = s.capacity
  nextSize : s.next.size = s.capacity

variable {s t : UnitSet} {l xs ys : List Nat} {unit : Nat}

theorem segment_append {earlier later : Option Nat} :
    s.Segment earlier (xs ++ ys) later ↔
      s.Segment earlier xs (ys.head?.or later) ∧ s.Segment (xs.getLast?.or earlier) ys later := by
  induction xs generalizing earlier with
  | nil => simp [Segment]
  | cons x rest ih =>
      have last : ((x :: rest).getLast?.or earlier) = rest.getLast?.or (some x) := by
        cases rest <;> simp [List.getLast?_cons]
      rw [List.cons_append, Segment, Segment, ih, last, List.head?_append]
      simp only [and_assoc, Option.or_assoc]

/-- Links that are not written to stay. -/
theorem Segment.congr {earlier later : Option Nat} (linked : s.Segment earlier l later)
    (before : ∀ x ∈ l, t.before x = s.before x) (after : ∀ x ∈ l, t.after x = s.after x) :
    t.Segment earlier l later := by
  induction l generalizing earlier with
  | nil => trivial
  | cons x rest ih =>
      obtain ⟨first, second, others⟩ := linked
      refine ⟨(before x (List.mem_cons_self ..)).trans first,
        (after x (List.mem_cons_self ..)).trans second, ih others ?_ ?_⟩
      · exact fun y member => before y (List.mem_cons_of_mem _ member)
      · exact fun y member => after y (List.mem_cons_of_mem _ member)

/-- What stands after a segment is known to its last member only. -/
theorem Segment.relink_last {earlier later later' : Option Nat} (distinct : l.Nodup)
    (linked : s.Segment earlier l later) (before : ∀ x ∈ l, t.before x = s.before x)
    (after : ∀ x ∈ l, l.getLast? ≠ some x → t.after x = s.after x)
    (last : ∀ x, l.getLast? = some x → t.after x = later') : t.Segment earlier l later' := by
  rcases List.eq_nil_or_concat l with rfl | ⟨init, x, rfl⟩
  · trivial
  · rw [List.concat_eq_append] at *
    rw [segment_append] at linked ⊢
    have final : (init ++ [x]).getLast? = some x := by simp
    refine ⟨linked.1.congr (fun y member => before y ?_) fun y member => after y ?_ ?_, ?_⟩
    · exact List.mem_append_left _ member
    · exact List.mem_append_left _ member
    · rw [final]
      rintro ⟨⟩
      exact (List.nodup_append.mp distinct).2.2 x member x (List.mem_singleton.mpr rfl) rfl
    · refine ⟨(before x (by simp)).trans linked.2.1, ?_, trivial⟩
      simpa using last x final

/-- What stands before a segment is known to its first member only. -/
theorem Segment.relink_first {earlier earlier' later : Option Nat} (distinct : l.Nodup)
    (linked : s.Segment earlier l later) (after : ∀ x ∈ l, t.after x = s.after x)
    (before : ∀ x ∈ l, l.head? ≠ some x → t.before x = s.before x)
    (first : ∀ x, l.head? = some x → t.before x = earlier') : t.Segment earlier' l later := by
  cases l with
  | nil => trivial
  | cons x rest =>
      obtain ⟨-, second, others⟩ := linked
      refine ⟨first x rfl, (after x (List.mem_cons_self ..)).trans second, others.congr ?_ ?_⟩
      · intro y member
        refine before y (List.mem_cons_of_mem _ member) ?_
        rintro ⟨⟩
        exact (List.nodup_cons.mp distinct).1 member
      · exact fun y member => after y (List.mem_cons_of_mem _ member)

/-! ## What can be asked of a set -/

theorem lt_capacity_of_contains (member : s.contains unit = true) : unit < s.capacity := by
  apply Nat.lt_of_not_le
  intro outside
  have outside' : s.member[unit]? = none := Array.getElem?_eq_none outside
  have absent : s.contains unit = false := by simp [contains, outside']
  rw [absent] at member
  cases member

theorem Lists.lt_capacity (lists : s.Lists l) (member : unit ∈ l) : unit < s.capacity :=
  lt_capacity_of_contains ((lists.member unit).mpr member)

theorem Lists.length_le_capacity (lists : s.Lists l) : l.length ≤ s.capacity := by
  have subset : l ⊆ List.range s.capacity :=
    fun _ member => List.mem_range.mpr (lists.lt_capacity member)
  simpa using (List.subperm_of_subset lists.distinct subset).length_le

theorem Segment.walk_eq {earlier : Option Nat} (linked : s.Segment earlier l none) {n : Nat}
    (enough : l.length ≤ n) : s.walk n l.head? = l := by
  induction l generalizing earlier n with
  | nil => cases n <;> rfl
  | cons x rest ih =>
      obtain ⟨-, second, others⟩ := linked
      cases n with
      | zero => cases enough
      | succ n =>
          rw [Option.or_none] at second
          rw [List.head?_cons, walk, second, ih others (Nat.le_of_succ_le_succ enough)]

/-- Following the links gives the members in the order in which they joined. -/
theorem Lists.toList_eq (lists : s.Lists l) : s.toList = l := by
  rw [toList, lists.head]
  exact lists.linked.walk_eq lists.length_le_capacity

theorem Lists.isEmpty_eq (lists : s.Lists l) : s.isEmpty = l.isEmpty := by
  rw [isEmpty, lists.size]
  cases l <;> rfl

theorem Lists.contains_eq (lists : s.Lists l) (unit : Nat) : s.contains unit = l.contains unit := by
  rw [Bool.eq_iff_iff, lists.member, List.contains_iff_mem]

theorem Lists.front_eq (lists : s.Lists l) : s.front = l.head? := lists.head

theorem lists_empty (capacity : Nat) : (empty capacity).Lists [] where
  distinct := List.nodup_nil
  member unit := by simp [empty, contains, Array.getElem?_replicate]; grind
  linked := trivial
  head := rfl
  tail := rfl
  size := rfl
  prevSize := by simp [empty, UnitSet.capacity]
  nextSize := by simp [empty, UnitSet.capacity]

/-! ## Joining -/

theorem contains_link (free : unit < s.capacity) (other : Nat) :
    (s.link unit).contains other = true ↔ other = unit ∨ s.contains other = true := by
  simp only [link, contains, Array.getD_eq_getD_getElem?, Array.getElem?_setIfInBounds]
  by_cases same : unit = other
  · subst same
    have bound : unit < s.member.size := free
    simp [bound]
  · simp [same, Ne.symm same]

theorem before_link (lists : s.Lists l) (free : unit < s.capacity) (other : Nat) :
    (s.link unit).before other = if other = unit then s.tail else s.before other := by
  simp only [link, before, Array.getD_eq_getD_getElem?, Array.getElem?_setIfInBounds]
  by_cases same : unit = other
  · subst same
    have bound : unit < s.prev.size := lists.prevSize ▸ free
    simp [bound]
  · simp [same, Ne.symm same]

theorem after_link (lists : s.Lists l) (free : unit < s.capacity) (other : Nat) :
    (s.link unit).after other =
      if s.tail = some other then some unit else if other = unit then none else s.after other := by
  have bound : unit < s.next.size := lists.nextSize ▸ free
  rcases tail : s.tail with _ | last
  · simp only [link, tail, after, Array.getD_eq_getD_getElem?, Array.getElem?_setIfInBounds]
    by_cases same : unit = other
    · subst same
      simp [bound]
    · simp [same, Ne.symm same]
  · have inside : last < s.next.size := by
      rw [lists.nextSize]
      exact lists.lt_capacity (List.mem_of_getLast? (lists.tail ▸ tail))
    simp only [link, tail, after, Array.getD_eq_getD_getElem?, Array.getElem?_setIfInBounds,
      Array.size_setIfInBounds]
    by_cases final : last = other
    · subst final
      simp [inside]
    · by_cases same : unit = other
      · subst same
        simp [bound, final]
      · simp [same, Ne.symm same, final]

/-- A unit that may join becomes the last member. -/
theorem Lists.link (lists : s.Lists l) (free : unit < s.capacity) (stranger : unit ∉ l) :
    (s.link unit).Lists (l ++ [unit]) where
  distinct := by
    refine List.nodup_append.mpr ⟨lists.distinct, by simp, ?_⟩
    rintro x member y here rfl
    exact stranger (List.mem_singleton.mp here ▸ member)
  member other := by
    rw [contains_link free, lists.member, List.mem_append, List.mem_singleton, or_comm]
  linked := by
    have apart : ∀ x ∈ l, x ≠ unit := fun x member same => stranger (same ▸ member)
    rw [segment_append]
    refine ⟨lists.linked.relink_last lists.distinct ?_ ?_ ?_, ?_, ?_, trivial⟩
    · intro x member
      rw [before_link lists free, if_neg (apart x member)]
    · intro x member inner
      rw [after_link lists free, lists.tail, if_neg inner, if_neg (apart x member)]
    · intro x final
      rw [after_link lists free, lists.tail, if_pos final]
      rfl
    · rw [before_link lists free, if_pos rfl, lists.tail, Option.or_none]
    · rw [after_link lists free, lists.tail, if_neg, if_pos rfl]
      · rfl
      · exact fun final => stranger (List.mem_of_getLast? final)
  head := by
    simp only [UnitSet.link, lists.tail, lists.head]
    rcases List.eq_nil_or_concat l with rfl | ⟨init, x, rfl⟩
    · rfl
    · simp
  tail := by simp [UnitSet.link]
  size := by simp [UnitSet.link, lists.size]
  prevSize := by simp [UnitSet.link, UnitSet.capacity, lists.prevSize]
  nextSize := by
    simp only [UnitSet.link, UnitSet.capacity, Array.size_setIfInBounds]
    split <;> simp [lists.nextSize, UnitSet.capacity]

/-! ## Leaving -/

theorem contains_unlink (other : Nat) :
    (s.unlink unit).contains other = true ↔ other ≠ unit ∧ s.contains other = true := by
  simp only [unlink, contains, Array.getD_eq_getD_getElem?, Array.getElem?_setIfInBounds]
  by_cases same : unit = other
  · subst same
    simp
    split <;> simp
  · simp [same, Ne.symm same]

theorem before_unlink (sizes : s.prev.size = s.capacity) (other : Nat)
    (inside : other < s.capacity) :
    (s.unlink unit).before other =
      if other = unit then none
      else if s.after unit = some other then s.before unit else s.before other := by
  have bound : other < s.prev.size := sizes ▸ inside
  rcases later : s.after unit with _ | l <;>
    simp only [unlink, later, before, Array.getD_eq_getD_getElem?, Array.getElem?_setIfInBounds,
      Array.size_setIfInBounds] <;>
    by_cases same : unit = other
  · subst same
    simp [bound]
  · simp [same, Ne.symm same]
  · subst same
    simp [bound]
  · by_cases here : l = other
    · subst here
      simp [same, Ne.symm same, bound]
    · simp [same, Ne.symm same, here]

theorem after_unlink (sizes : s.next.size = s.capacity) (other : Nat)
    (inside : other < s.capacity) :
    (s.unlink unit).after other =
      if other = unit then none
      else if s.before unit = some other then s.after unit else s.after other := by
  have bound : other < s.next.size := sizes ▸ inside
  rcases earlier : s.before unit with _ | e <;>
    simp only [unlink, earlier, after, Array.getD_eq_getD_getElem?,
      Array.getElem?_setIfInBounds, Array.size_setIfInBounds] <;>
    by_cases same : unit = other
  · subst same
    simp [bound]
  · simp [same, Ne.symm same]
  · subst same
    simp [bound]
  · by_cases here : e = other
    · subst here
      simp [same, Ne.symm same, bound]
    · simp [same, Ne.symm same, here]

/-- The neighbours of a member. -/
theorem Lists.neighbours (lists : s.Lists (xs ++ unit :: ys)) :
    s.before unit = xs.getLast? ∧ s.after unit = ys.head? := by
  have linked := lists.linked
  rw [segment_append] at linked
  obtain ⟨-, before, after, -⟩ := linked
  rw [Option.or_none] at before after
  exact ⟨before, after⟩

/-- Whoever leaves, the others stay in their order. -/
theorem Lists.unlink (lists : s.Lists (xs ++ unit :: ys)) : (s.unlink unit).Lists (xs ++ ys) := by
  obtain ⟨before, after⟩ := lists.neighbours
  have distinct := lists.distinct
  have apart : unit ∉ xs ++ ys := by
    have swapped : (unit :: (xs ++ ys)).Nodup := List.nodup_middle.mp distinct
    exact (List.nodup_cons.mp swapped).1
  have kept : (xs ++ ys).Nodup := (List.nodup_cons.mp (List.nodup_middle.mp distinct)).2
  have disjoint : ∀ x ∈ xs, ∀ y ∈ ys, x ≠ y := (List.nodup_append.mp kept).2.2
  have differs : ∀ x ∈ xs ++ ys, x ≠ unit := fun x member same => apart (same ▸ member)
  have inside : ∀ x ∈ xs ++ ys, x < s.capacity := fun x member =>
    lists.lt_capacity (List.mem_append.mpr ((List.mem_append.mp member).imp (fun here => here)
      (List.mem_cons_of_mem _)))
  have beforeOf : ∀ x ∈ xs ++ ys, ys.head? ≠ some x →
      (s.unlink unit).before x = s.before x := by
    intro x member inner
    rw [before_unlink lists.prevSize x (inside x member), if_neg (differs x member), after,
      if_neg inner]
  have afterOf : ∀ x ∈ xs ++ ys, xs.getLast? ≠ some x → (s.unlink unit).after x = s.after x := by
    intro x member inner
    rw [after_unlink lists.nextSize x (inside x member), if_neg (differs x member), before,
      if_neg inner]
  -- Only the last of those before it and the first of those behind it have a new neighbour.
  have linked := lists.linked
  rw [segment_append] at linked
  obtain ⟨left, -, -, right⟩ := linked
  refine ⟨kept, fun other => ?_, ?_, ?_, ?_, ?_, ?_, ?_⟩
  · rw [contains_unlink, lists.member]
    constructor
    · intro given
      rcases given with ⟨other, member⟩
      simpa [other] using member
    · exact fun member => ⟨differs other member, by grind⟩
  · refine segment_append.mpr ⟨left.relink_last (List.nodup_append.mp kept).1 ?_ ?_ ?_,
      right.relink_first (List.nodup_append.mp kept).2.1 ?_ ?_ ?_⟩
    · intro x member
      refine beforeOf x (List.mem_append_left _ member) fun first => ?_
      exact disjoint x member x (List.mem_of_head? first) rfl
    · exact fun x member inner => afterOf x (List.mem_append_left _ member) inner
    · intro x last
      have member := List.mem_append_left ys (List.mem_of_getLast? last)
      rw [after_unlink lists.nextSize x (inside x member), if_neg (differs x member), before,
        if_pos last, after, Option.or_none]
    · intro x member
      refine afterOf x (List.mem_append_right _ member) fun last => ?_
      exact disjoint x (List.mem_of_getLast? last) x member rfl
    · exact fun x member inner => beforeOf x (List.mem_append_right _ member) inner
    · intro x first
      have member := List.mem_append_right xs (List.mem_of_head? first)
      rw [before_unlink lists.prevSize x (inside x member), if_neg (differs x member), after,
        if_pos first, before, Option.or_none]
  · simp only [UnitSet.unlink, before, after, lists.head]
    rcases xs with _ | ⟨x, rest⟩
    · simp
    · simp [List.getLast?_cons]
  · simp only [UnitSet.unlink, before, after, lists.tail]
    rcases List.eq_nil_or_concat ys with rfl | ⟨init, y, rfl⟩
    · simp
    · simp [List.getLast?_append, List.getLast?_cons]
  · simp [UnitSet.unlink, lists.size]
  · simp only [UnitSet.unlink, UnitSet.capacity, Array.size_setIfInBounds]
    split <;> simp [lists.prevSize, UnitSet.capacity]
  · simp only [UnitSet.unlink, UnitSet.capacity, Array.size_setIfInBounds]
    split <;> simp [lists.nextSize, UnitSet.capacity]

theorem Lists.unlink_erase (lists : s.Lists l) (member : unit ∈ l) :
    (s.unlink unit).Lists (l.erase unit) := by
  obtain ⟨xs, ys, stranger, rfl, erased⟩ := List.exists_erase_eq member
  rw [erased]
  exact lists.unlink

/-! ## Operations that may be refused -/

@[simp] theorem capacity_link : (s.link unit).capacity = s.capacity := by
  simp [link, UnitSet.capacity]

@[simp] theorem capacity_unlink : (s.unlink unit).capacity = s.capacity := by
  simp [unlink, UnitSet.capacity]

theorem Lists.push (lists : s.Lists l) (free : unit < s.capacity) (stranger : unit ∉ l) :
    (s.push unit).Lists (l ++ [unit]) := by
  have absent : s.contains unit = false := by simpa [lists.contains_eq] using stranger
  rw [UnitSet.push, if_pos (by simp [canJoin, free, absent])]
  exact lists.link free stranger

theorem Lists.remove (lists : s.Lists l) (member : unit ∈ l) :
    (s.remove unit).Lists (l.erase unit) := by
  rw [UnitSet.remove, if_pos ((lists.member unit).mpr member)]
  exact lists.unlink_erase member

@[simp] theorem capacity_push : (s.push unit).capacity = s.capacity := by
  unfold push
  split <;> simp

@[simp] theorem capacity_remove : (s.remove unit).capacity = s.capacity := by
  unfold remove
  split <;> simp

/-- The set of all units lists them in ascending order. -/
theorem lists_full (capacity : Nat) : (full capacity).Lists (List.range capacity) := by
  have growing : ∀ n ≤ capacity,
      ((List.range n).foldl UnitSet.push (empty capacity)).Lists (List.range n) ∧
      ((List.range n).foldl UnitSet.push (empty capacity)).capacity = capacity := by
    intro n
    induction n with
    | zero => exact fun _ => ⟨lists_empty capacity, by simp [empty, UnitSet.capacity]⟩
    | succ n ih =>
        intro bound
        obtain ⟨lists, size⟩ := ih (Nat.le_of_succ_le bound)
        rw [List.range_succ, List.foldl_append]
        refine ⟨lists.push ?_ (by simp), by simpa using size⟩
        rw [size]
        exact bound
  exact (growing capacity (Nat.le_refl _)).1

theorem capacity_full (capacity : Nat) : (full capacity).capacity = capacity := by
  have kept : ∀ (l : List Nat) (s : UnitSet), (l.foldl UnitSet.push s).capacity = s.capacity := by
    intro l
    induction l with
    | nil => exact fun _ => rfl
    | cons x rest ih => exact fun s => (ih _).trans capacity_push
  rw [full, kept]
  simp [empty, UnitSet.capacity]

end Accelerator.UnitSet
