/-!
# Queues

A queue is left in the order in which it was joined. The items that joined lately are kept in a list of
their own, latest first, so that joining and leaving take one step each, the few times apart when that
list is turned round. `Queue.toList` is the queue as a list, and says all there is to know about it.
-/

namespace Accelerator

structure Queue (α : Type) where
  /-- Those that leave next, in this order. -/
  early : List α := []
  /-- Those that leave after them, latest first. -/
  late : List α := []
deriving DecidableEq, Inhabited

namespace Queue

variable {α : Type}

/-- The items in the order in which they leave. -/
def toList (q : Queue α) : List α := q.early ++ q.late.reverse

/-- Let an item join as the last one. -/
def push (q : Queue α) (a : α) : Queue α := { q with late := a :: q.late }

/-- Let the first item leave. -/
def pop? (q : Queue α) : Option (α × Queue α) :=
  match q.early with
  | a :: early => some (a, { q with early })
  | [] =>
    match q.late.reverse with
    | a :: early => some (a, { early })
    | [] => none

@[simp] theorem toList_push (q : Queue α) (a : α) : (q.push a).toList = q.toList ++ [a] := by
  simp [toList, push]

theorem pop?_eq_none_iff (q : Queue α) : q.pop? = none ↔ q.toList = [] := by
  rcases q with ⟨_ | ⟨a, early⟩, late⟩
  · cases h : late.reverse <;> simp [pop?, toList, h]
  · simp [pop?, toList]

theorem toList_of_pop? {q r : Queue α} {a : α} (h : q.pop? = some (a, r)) :
    q.toList = a :: r.toList := by
  rcases q with ⟨_ | ⟨b, early⟩, late⟩
  · cases hl : late.reverse <;> simp [pop?, hl] at h
    obtain ⟨rfl, rfl⟩ := h
    simp [toList, hl]
  · simp only [pop?, Option.some.injEq, Prod.mk.injEq] at h
    obtain ⟨rfl, rfl⟩ := h
    simp [toList]

end Queue

end Accelerator
