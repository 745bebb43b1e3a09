import Accelerator.Proofs.Device.Transitions
import Accelerator.Proofs.Device.Runs

/-!
# Jobs that are alike

Two jobs are alike when they differ only in their units and their sinks, and there in a way that a
`Likeness` allows. If units that are alike work alike, then everything done to one of two jobs and
to the other has the same answer and leads to jobs that are alike again, up to whole runs.
-/

namespace Accelerator

/-- Which units and which sinks count as alike. -/
structure Likeness where
  unit : ComputeUnit → ComputeUnit → Prop
  sink : Sink → Sink → Prop

namespace Likeness

variable {ι μ π : Type}

/-- What a cycle leads to is alike: services and progress are the same, and the events make no
difference to sinks that are alike. -/
structure Work (L : Likeness) (left right : Progress × Bench ι μ) : Prop where
  progress : left.1 = right.1
  isa : left.2.isa = right.2.isa
  memory : left.2.memory = right.2.memory
  unit : L.unit left.2.unit right.2.unit
  events : ∀ s t, L.sink s t →
    L.sink (s.recordStages left.2.events) (t.recordStages right.2.events)

/-- What is done to units and sinks keeps them alike. -/
structure Faithful (L : Likeness) : Prop where
  id : ∀ {u v}, L.unit u v → u.id = v.id
  group : ∀ {u v}, L.unit u v → u.group = v.group
  stats : ∀ {u v}, L.unit u v → u.stats = v.stats
  loaded : ∀ {u v}, L.unit u v → u.group = none → ∀ group wavefronts,
    L.unit (u.loaded group wavefronts) (v.loaded group wavefronts)
  release : ∀ {u v}, L.unit u v → L.unit u.release.2 v.release.2
  record : ∀ {s t}, L.sink s t → ∀ event, L.sink (s.record event) (t.record event)
  flush : ∀ {s t}, L.sink s t → L.sink s.flush t.flush

/-- Units that are alike work alike. -/
def Steady (L : Likeness) (ι μ : Type) [InstructionModel ι] [MemoryService μ] : Prop :=
  ∀ {u v}, L.unit u v → ∀ (cycle : Nat) (isa : ι) (memory : μ),
    Attempt.Agree L.Work (({ unit := u, isa, memory } : Bench ι μ).step cycle)
      (({ unit := v, isa, memory } : Bench ι μ).step cycle)

end Likeness

namespace Job

open Attempt

variable {ι μ π : Type} {L : Likeness}

/-- The same job with other units and another sink. -/
def dressed (job : Job ι μ π) (units : Array ComputeUnit) (sink : Sink) : Job ι μ π :=
  { job with device := { job.device with
      cluster := { job.device.cluster with units }
      sink } }

/-- Only units and sinks differ, and these are alike. -/
inductive Alike (L : Likeness) (job : Job ι μ π) : Job ι μ π → Prop
  | intro {units : Array ComputeUnit} {sink : Sink}
      (pairs : ∀ unit : Nat, Option.Rel L.unit job.device.cluster.units[unit]? units[unit]?)
      (sinks : L.sink job.device.sink sink) :
    Alike L job (job.dressed units sink)

theorem map_eq_of_rel {r : ComputeUnit → ComputeUnit → Prop} {a b : Option ComputeUnit}
    (related : Option.Rel r a b) {α : Type} {f : ComputeUnit → α}
    (same : ∀ u v, r u v → f u = f v) : a.map f = b.map f := by
  cases related with
  | some related => exact congrArg some (same _ _ related)
  | none => rfl

theorem size_eq_of_rel {r : ComputeUnit → ComputeUnit → Prop} {xs ys : Array ComputeUnit}
    (pairs : ∀ unit : Nat, Option.Rel r xs[unit]? ys[unit]?) : xs.size = ys.size := by
  have outside : ∀ unit : Nat, xs[unit]? = none ↔ ys[unit]? = none := by
    intro unit
    have same := map_eq_of_rel (pairs unit) (f := fun _ => ()) fun _ _ _ => rfl
    cases found : xs[unit]? <;> cases found' : ys[unit]? <;> simp [found, found'] at same ⊢
  have left := (outside xs.size).mp (Array.getElem?_eq_none (Nat.le_refl _))
  have right := (outside ys.size).mpr (Array.getElem?_eq_none (Nat.le_refl _))
  exact Nat.le_antisymm (Array.getElem?_eq_none_iff.mp right) (Array.getElem?_eq_none_iff.mp left)

/-- Replacing one of each of two rows of units keeps the rows alike. -/
theorem rel_setIfInBounds {r : ComputeUnit → ComputeUnit → Prop} {xs ys : Array ComputeUnit}
    (pairs : ∀ unit : Nat, Option.Rel r xs[unit]? ys[unit]?) {u v : ComputeUnit} (related : r u v)
    (unit other : Nat) :
    Option.Rel r (xs.setIfInBounds unit u)[other]? (ys.setIfInBounds unit v)[other]? := by
  rw [Array.getElem?_setIfInBounds, Array.getElem?_setIfInBounds, size_eq_of_rel pairs]
  by_cases same : unit = other
  · rw [if_pos same, if_pos same]
    split
    · exact .some related
    · exact .none
  · rw [if_neg same, if_neg same]
    exact pairs other

/-- Units of the same number are alike, or there is none on either side. -/
theorem agree_unit {c d : Cluster ι μ}
    (pairs : ∀ unit : Nat, Option.Rel L.unit c.units[unit]? d.units[unit]?) (unit : Nat) :
    Agree L.unit (c.unit unit) (d.unit unit) := by
  have here := pairs unit
  rw [Cluster.unit, Cluster.unit]
  generalize c.units[unit]? = left at here ⊢
  generalize d.units[unit]? = right at here ⊢
  cases here with
  | some related => exact .ok related
  | none => exact .error _

/-! ## Dispatch -/

section Dispatch

variable [Placement π]

theorem matches_pickUnit : Matches (@Alike ι μ π L) Eq pickUnit pickUnit := by
  intro job other alike
  cases alike with
  | intro pairs sinks =>
      rw [pickUnit_outcome, pickUnit_outcome]
      exact ⟨agree_eq _, .intro pairs sinks⟩

omit [Placement π] in
theorem matches_reserveUnit (unit : Nat) :
    Matches (@Alike ι μ π L) Eq (reserveUnit unit) (reserveUnit unit) := by
  apply matches_get
  intro job other alike
  cases alike with
  | intro pairs sinks =>
      refine Matches.ite Iff.rfl (matches_modify fun job other alike => ?_) (matches_throw _)
      cases alike with
      | intro pairs sinks => exact .intro pairs sinks

omit [Placement π] in
/-- What is done to the launch has nothing to do with units. -/
theorem matches_modifyLaunch (change : NdRange → NdRange) :
    Matches (@Alike ι μ π L) Eq (modifyLaunch change) (modifyLaunch change) := by
  apply matches_modify
  intro job other alike
  cases alike with
  | intro pairs sinks => exact .intro pairs sinks

omit [Placement π] in
theorem matches_reserveGroup (unit : Nat) :
    Matches (@Alike ι μ π L) Eq (reserveGroup unit) (reserveGroup unit) := by
  apply matches_get
  intro job other alike
  cases alike with
  | intro pairs sinks =>
  refine (matches_ofExcept (agree_eq _)).bind fun first _ same => ?_
  subst same
  refine (matches_modifyLaunch _).andThen (matches_get fun job other alike => ?_)
  cases alike with
  | intro pairs sinks =>
  refine (matches_ofExcept (agree_eq _)).bind fun waiting _ same => ?_
  subst same
  exact (matches_modifyLaunch _).andThen (matches_pure rfl)

variable (faithful : L.Faithful)

include faithful

omit [Placement π] in
theorem matches_assignGroup (unit group : Nat) :
    Matches (@Alike ι μ π L) Eq (assignGroup unit group)
      (assignGroup unit group) := by
  apply matches_get
  intro job other alike
  cases alike with
  | intro pairs sinks =>
  refine (matches_ofExcept (agree_eq _)).bind fun wavefronts _ same => ?_
  subst same
  refine (matches_ofExcept (agree_unit pairs unit)).bind fun u v related => ?_
  have assigned : Agree L.unit (u.assign group wavefronts) (v.assign group wavefronts) := by
    rcases held : u.group with _ | running
    · rw [u.assign_eq held, v.assign_eq (faithful.group related ▸ held)]
      exact .ok (faithful.loaded related held group wavefronts)
    · rw [ComputeUnit.assign, ComputeUnit.assign, ← faithful.group related, ← faithful.id related,
        held]
      exact .error _
  refine (matches_ofExcept assigned).bind fun u v related => ?_
  apply matches_modify
  intro job other alike
  cases alike with
  | intro pairs sinks =>
      exact .intro (rel_setIfInBounds pairs related unit) (faithful.record sinks _)

theorem matches_dispatchOne :
    Matches (@Alike ι μ π L) Eq dispatchOne dispatchOne := by
  apply matches_pickUnit.bind
  intro picked _ same
  subst same
  cases picked with
  | none => exact matches_pure rfl
  | some unit =>
      refine (matches_reserveUnit unit).andThen ((matches_reserveGroup unit).bind fun group _ same => ?_)
      subst same
      exact (matches_assignGroup faithful unit group).andThen (matches_pure rfl)

theorem matches_dispatchUpTo (limit : Nat) :
    Matches (@Alike ι μ π L) Eq (dispatchUpTo limit) (dispatchUpTo limit) := by
  induction limit with
  | zero => exact matches_pure rfl
  | succ limit ih =>
      apply matches_get
      intro job other alike
      cases alike with
      | intro pairs sinks =>
      refine Matches.ite Iff.rfl ((matches_dispatchOne faithful).bind fun more _ same => ?_)
        (matches_pure rfl)
      subst same
      refine Matches.ite Iff.rfl (ih.bind fun count _ same => ?_) (matches_pure rfl)
      exact matches_pure (congrArg (· + 1) same)

theorem matches_place : Matches (@Alike ι μ π L) Eq place place := by
  apply matches_get
  intro job other alike
  cases alike with
  | intro pairs sinks =>
  refine Matches.ite Iff.rfl (Matches.bind (Q := Eq) ?_ fun _ _ _ => matches_pure rfl) (matches_pure rfl)
  apply matches_get
  intro job other alike
  cases alike with
  | intro pairs sinks => exact matches_dispatchUpTo faithful _

end Dispatch

/-! ## Before and after a run -/

theorem matches_begin : Matches (@Alike ι μ π L) Eq begin begin := by
  apply matches_get
  intro job other alike
  cases alike with
  | @intro units sink pairs sinks =>
  have active : (job.dressed units sink).device.active = job.device.active := rfl
  simp only [active]
  rcases job.device.active with _ | active
  · refine Matches.ite Iff.rfl (matches_throw _) (Matches.ite Iff.rfl (matches_throw _) ?_)
    apply matches_modify
    intro job other alike
    cases alike with
    | intro pairs sinks => exact .intro pairs sinks
  · exact Matches.ite Iff.rfl (matches_throw _) (matches_pure rfl)

section Ending

variable (faithful : L.Faithful)

include faithful

theorem matches_flush : Matches (@Alike ι μ π L) Eq flush flush := by
  apply matches_modify
  intro job other alike
  cases alike with
  | intro pairs sinks => exact .intro pairs (faithful.flush sinks)

/-- Units that are alike have done as much. -/
theorem stats_eq {job : Job ι μ π} {units : Array ComputeUnit} {sink : Sink}
    (pairs : ∀ unit : Nat, Option.Rel L.unit job.device.cluster.units[unit]? units[unit]?) :
    job.device.stats = (job.dressed units sink).device.stats := by
  have counts : job.device.units.map (·.stats) = units.toList.map (·.stats) := by
    apply List.ext_getElem?
    intro unit
    rw [Device.units, List.getElem?_map, List.getElem?_map, Array.getElem?_toList,
      Array.getElem?_toList]
    exact map_eq_of_rel (pairs unit) fun _ _ related => faithful.stats related
  have total : ∀ count : UnitStats → Nat,
      job.device.total count = (job.dressed units sink).device.total count := by
    intro count
    have folded : ∀ l : List ComputeUnit, l.foldr (fun u sum => count u.stats + sum) 0 =
        (l.map (·.stats)).foldr (fun stats sum => count stats + sum) 0 := by
      intro l
      rw [List.foldr_map]
    rw [Device.total, Device.total, folded, folded, counts]
    rfl
  have busyCycles : job.device.units.map (fun u => u.stats.busyCycles) =
      units.toList.map fun u => u.stats.busyCycles := by
    simpa only [List.map_map, Function.comp_def] using congrArg (List.map (·.busyCycles)) counts
  rw [Device.stats, Device.stats, total, total, total, busyCycles]
  rfl

theorem matches_suspend : Matches (@Alike ι μ π L) Eq suspend suspend := by
  refine (matches_flush faithful).andThen (matches_get fun job other alike => ?_)
  cases alike with
  | intro pairs sinks => exact matches_pure (congrArg Outcome.suspended (stats_eq faithful pairs))

theorem matches_finish : Matches (@Alike ι μ π L) Eq finish finish := by
  have inactive : Matches (@Alike ι μ π L) Eq
      (modifyDevice fun device => { device with active := none })
      (modifyDevice fun device => { device with active := none }) := by
    apply matches_modify
    intro job other alike
    cases alike with
    | intro pairs sinks => exact .intro pairs sinks
  refine inactive.andThen ((matches_flush faithful).andThen (matches_get fun job other alike => ?_))
  cases alike with
  | intro pairs sinks => exact matches_pure (congrArg Outcome.completed (stats_eq faithful pairs))

end Ending

/-! ## Work -/

section Work

variable [InstructionModel ι] [MemoryService μ] (faithful : L.Faithful) (steady : L.Steady ι μ)

include faithful

omit [InstructionModel ι] [MemoryService μ] in
theorem matches_complete (unit group : Nat) :
    Matches (@Alike ι μ π L) Eq (complete unit group) (complete unit group) := by
  apply matches_get
  intro job other alike
  cases alike with
  | intro pairs sinks =>
  refine (matches_ofExcept (agree_eq _)).bind fun running _ same => ?_
  subst same
  refine (matches_modifyLaunch _).andThen (matches_get fun job other alike => ?_)
  cases alike with
  | intro pairs sinks =>
  refine (matches_ofExcept (agree_unit pairs unit)).bind fun u v related => ?_
  apply matches_modify
  intro job other alike
  cases alike with
  | intro pairs sinks =>
      exact .intro (rel_setIfInBounds pairs (faithful.release related) unit)
        (faithful.record sinks _)

include steady

theorem matches_stepUnit (unit : Nat) :
    Matches (@Alike ι μ π L) Eq (stepUnit unit) (stepUnit unit) := by
  apply matches_get
  intro job other alike
  cases alike with
  | @intro units sink pairs sinks =>
  have size : job.device.cluster.units.size = (job.dressed units sink).device.cluster.units.size :=
    size_eq_of_rel pairs
  have work : Agree L.Work (job.device.cluster.stepUnit job.device.cycle unit)
      ((job.dressed units sink).device.cluster.stepUnit job.device.cycle unit) := by
    have here := agree_unit pairs unit (d := (job.dressed units sink).device.cluster)
    unfold Cluster.stepUnit
    generalize job.device.cluster.unit unit = left at here ⊢
    generalize (job.dressed units sink).device.cluster.unit unit = right at here ⊢
    cases here with
    | ok related => exact steady related _ _ _
    | error e => exact .error e
  simp only [size]
  refine Matches.ite Iff.rfl (matches_throw _) (Matches.ite Iff.rfl (matches_throw _) ?_)
  refine (matches_ofExcept work).bind fun left right alike => ?_
  refine Matches.andThen (matches_modify fun job other related => ?_) ?_
  · cases related with
    | intro pairs sinks =>
        simp only [Cluster.settle, ← alike.isa, ← alike.memory]
        exact .intro (rel_setIfInBounds pairs alike.unit unit) (alike.events _ _ sinks)
  · rw [alike.progress]
    cases right.1 with
    | running => exact matches_pure rfl
    | finished group => exact matches_complete faithful unit group

end Work

/-! ## Whole runs -/

section Runs

variable {left right : Nat → Attempt (Job ι μ π) Unit}
  (visits : ∀ unit, Matches (@Alike ι μ π L) Eq (left unit) (right unit))

include visits in
theorem matches_advanceWith :
    Matches (@Alike ι μ π L) Eq (advanceWith left) (advanceWith right) := by
  refine Matches.andThen (matches_modify fun job other alike => ?_) ?_
  · cases alike with
    | intro pairs sinks => exact .intro pairs sinks
  · apply matches_get
    intro job other alike
    cases alike with
    | intro pairs sinks => exact Matches.forM visits _

variable [Placement π] (faithful : L.Faithful)

include visits faithful

theorem alike_driveWith (room : Nat) (budget : Option Nat) :
    Matches (@Alike ι μ π L) Eq (driveWith left room budget) (driveWith right room budget) := by
  refine matches_driveWith (fun alike => ?_) (matches_place faithful) (matches_advanceWith visits)
    (matches_finish faithful) (matches_suspend faithful) room budget
  cases alike with
  | intro pairs sinks => rfl

theorem alike_runWith (budget : Option Nat) :
    Matches (@Alike ι μ π L) Eq (runWith left budget) (runWith right budget) := by
  refine matches_runWith (fun alike => ?_) matches_begin (alike_driveWith visits faithful · budget)
  cases alike with
  | intro pairs sinks => rfl

end Runs

end Job

end Accelerator
