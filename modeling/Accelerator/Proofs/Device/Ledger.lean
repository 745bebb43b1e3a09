import Accelerator.Proofs.Device.Accounts

/-!
# The ledger of a run

A ledger adds up what is held by the units and what is put down for the groups that wait. If units
take over what is put down for a group, and hold the same after a cycle as before, then the total
is the same through a whole run (`SameBooks`). The work that is left is such a total, except that
it becomes less in every cycle in which not all busy units wait for the memory.
-/

namespace Accelerator.Job

open Relation

variable {ι μ π : Type} {held : ComputeUnit → Nat} {price : Nat → Nat} {unit : Nat}

/-- What is held by the units and put down for the groups that wait, in total. -/
def ledger (job : Job ι μ π) (held : ComputeUnit → Nat) (price : Nat → Nat) : Nat :=
  (job.device.units.map held).sum + (job.launch.pending.map price).sum

/-- When one unit changes, the total changes with it. -/
theorem sum_units_of_change {job after : Job ι μ π} {u v : ComputeUnit}
    (resident : job.device.cluster.units[unit]? = some u)
    (units : ∀ other, after.device.cluster.units[other]? =
      if other = unit then some v else job.device.cluster.units[other]?)
    (held : ComputeUnit → Nat) :
    (after.device.units.map held).sum + held u = (job.device.units.map held).sum + held v := by
  refine sum_map_of_change (i := unit) ?_ ?_ fun other differs => ?_
  · rw [Device.units, Array.getElem?_toList, resident]
  · rw [Device.units, Array.getElem?_toList, units, if_pos rfl]
  · rw [Device.units, Device.units, Array.getElem?_toList, Array.getElem?_toList, units,
      if_neg differs]

/-- What is put down for a group that waits: the price of its wavefronts. -/
def groupPrice (t : Tariff) (p : SyntheticProgram) (lanes : Nat) (nd : NdRange) (group : Nat) :
    Nat :=
  match nd.wavefrontsOf group with
  | .ok wavefronts => t.priceOf p lanes wavefronts
  | .error _ => 0

/-- A unit that is given a group holds what was put down for it. -/
def Transfers (lanes : Nat) (nd : NdRange) (held : ComputeUnit → Nat) (price : Nat → Nat) : Prop :=
  ∀ (u : ComputeUnit) (group : Nat) (wavefronts : List Wavefront), u.Sound →
    u.lanes.length = lanes → u.group = none → nd.wavefrontsOf group = .ok wavefronts →
      held (u.loaded group wavefronts) = held u + price group

/-- A busy unit holds the same after a cycle. -/
def Holding (μ : Type) [MemoryService μ] (p : SyntheticProgram) (held : ComputeUnit → Nat) : Prop :=
  ∀ (u : ComputeUnit) (memory : μ) (cycle : Nat), u.Sound → u.Follows p → u.isBusy = true →
    held (u.afterwards p memory cycle) = held u

variable [Placement π] {p : SyntheticProgram} {lanes : Nat}

/-- All units run the program, on the same number of lanes, and no wavefront of the launch is
without items. -/
structure Follows (job : Job SyntheticProgram μ π) (p : SyntheticProgram) (lanes : Nat) : Prop where
  owned : job.Owned
  isa : job.device.cluster.isa = p
  units : ∀ (unit : Nat) (u : ComputeUnit), job.device.cluster.units[unit]? = some u →
    u.Follows p ∧ u.lanes.length = lanes
  items : ∀ (group : Nat) (wavefronts : List Wavefront),
    job.launch.wavefrontsOf group = .ok wavefronts →
      ∀ w ∈ wavefronts, w.items.start < w.items.stop

/-! ## Dispatch -/

section Dispatch

variable {job after : Job SyntheticProgram μ π}

/-- A group that is handed out is put down no more, and held instead. -/
theorem Hands.ledger_eq (hands : job.Hands after) (follows : job.Follows p lanes)
    (transfers : Transfers lanes job.launch held price) :
    after.ledger held price = job.ledger held price := by
  cases hands with
  | @intro placement unit u g rest wavefronts _ pending _ _ listed resident free =>
      have taken := transfers u g.id wavefronts (follows.owned.sound unit u resident)
        (follows.units unit u resident).2 free listed
      have sums : ((job.handed placement unit u g rest wavefronts).device.units.map held).sum +
          held u = (job.device.units.map held).sum + held (u.loaded g.id wavefronts) :=
        sum_units_of_change resident (getElem?_setUnit resident) held
      have queue : (job.handed placement unit u g rest wavefronts).launch.pending = rest := rfl
      rw [ledger, ledger, queue, pending, List.map_cons, List.sum_cons]
      omega

theorem Hands.follows (hands : job.Hands after) (follows : job.Follows p lanes) :
    after.Follows p lanes := by
  have owned := hands.owned follows.owned
  have shape := hands.sameRun.shape
  cases hands with
  | @intro placement unit u g rest wavefronts _ _ _ _ listed resident free =>
      rcases follows.units unit u resident with ⟨runs, width⟩
      refine ⟨owned, follows.isa, ?_, fun group => shape.wavefrontsOf ▸ follows.items group⟩
      have units : ∀ other,
          (job.handed placement unit u g rest wavefronts).device.cluster.units[other]? =
          if other = unit then some (u.loaded g.id wavefronts)
          else job.device.cluster.units[other]? := getElem?_setUnit resident
      have loaded : (u.loaded g.id wavefronts).Follows p :=
        runs.loaded (follows.owned.sound unit u resident) free g.id
          (follows.items g.id wavefronts listed)
      exact forall_units (P := fun _ u => u.Follows p ∧ u.lanes.length = lanes) units
        ⟨loaded, width⟩ follows.units

/-- Busy units are not given anything. -/
theorem Hands.getElem?_units (hands : job.Hands after) {u : ComputeUnit}
    (resident : job.device.cluster.units[unit]? = some u) (busy : u.group ≠ none) :
    after.device.cluster.units[unit]? = some u := by
  cases hands with
  | @intro placement other v g rest wavefronts _ _ _ _ _ resting free =>
      have units : (job.handed placement other v g rest wavefronts).device.cluster.units[unit]? =
          if unit = other then some (v.loaded g.id wavefronts)
          else job.device.cluster.units[unit]? := getElem?_setUnit resting unit
      have differs : unit ≠ other := by
        rintro rfl
        cases resident.symm.trans resting
        exact busy free
      rw [units, if_neg differs, resident]

end Dispatch

/-! ## Work -/

section Work

variable [MemoryService μ] {job after : Job SyntheticProgram μ π}

omit [Placement π] in
/-- A unit that works is in the end as after a cycle of its program, and nothing else changes among
the units and the groups that wait. -/
theorem Works.change (works : job.Works unit after) (isa : job.device.cluster.isa = p) :
    ∃ u, job.device.cluster.units[unit]? = some u ∧ u.isBusy = true ∧
      (∀ other, after.device.cluster.units[other]? = if other = unit then
        some (u.afterwards p job.device.cluster.memory job.device.cycle)
        else job.device.cluster.units[other]?) ∧
      after.launch.pending = job.launch.pending ∧ after.device.cluster.isa = p := by
  cases works with
  | @intro u g resident held found runs =>
      obtain ⟨unit_eq, isa_eq⟩ := ComputeUnit.cycled_unit (job.bench u) u.order job.device.cycle g.id
      refine ⟨u, resident, by rw [ComputeUnit.isBusy, held]; rfl, fun other => ?_, ?_, ?_⟩
      · rw [getElem?_stepped resident, unit_eq, ← isa]
        rfl
      · rcases job.stepped_cases unit u g with ⟨-, stepped⟩ | ⟨-, stepped⟩ <;> rw [stepped] <;> rfl
      · rw [← isa]
        rcases job.stepped_cases unit u g with ⟨-, stepped⟩ | ⟨-, stepped⟩ <;>
          rw [stepped] <;> exact isa_eq

theorem Works.follows (works : job.Works unit after) (follows : job.Follows p lanes)
    (kept : .end ∉ p.kinds) : after.Follows p lanes := by
  have owned := works.owned follows.owned
  have shape := works.sameRun.shape
  rcases works.change follows.isa with ⟨u, resident, -, units, -, isa⟩
  rcases follows.units unit u resident with ⟨runs, width⟩
  refine ⟨owned, isa, ?_, fun group => shape.wavefrontsOf ▸ follows.items group⟩
  refine forall_units (P := fun _ u => u.Follows p ∧ u.lanes.length = lanes) units ?_ follows.units
  obtain ⟨runs', width'⟩ := runs.afterwards (follows.owned.sound unit u resident) kept
    job.device.cluster.memory job.device.cycle
  exact ⟨runs', width'.trans width⟩

omit [Placement π] in
/-- What a unit holds may become more or less while it works, and the total with it. -/
theorem Works.ledger_add (works : job.Works unit after) (isa : job.device.cluster.isa = p)
    {u : ComputeUnit} (resident : job.device.cluster.units[unit]? = some u)
    (held : ComputeUnit → Nat) (price : Nat → Nat) :
    after.ledger held price + held u = job.ledger held price +
      held (u.afterwards p job.device.cluster.memory job.device.cycle) := by
  rcases works.change isa with ⟨v, resident', -, units, pending, -⟩
  cases resident.symm.trans resident'
  have sums := sum_units_of_change resident units held
  rw [ledger, ledger, pending]
  omega

theorem Works.ledger_eq (works : job.Works unit after) (follows : job.Follows p lanes)
    (holding : Holding μ p held) : after.ledger held price = job.ledger held price := by
  rcases works.change follows.isa with ⟨u, resident, busy, -⟩
  have sum := works.ledger_add follows.isa resident held price
  rw [holding u _ _ (follows.owned.sound unit u resident) (follows.units unit u resident).1
    busy] at sum
  exact Nat.add_right_cancel sum

end Work

/-! ## The same books -/

variable [MemoryService μ] {job after : Job SyntheticProgram μ π}

/-- Both jobs are in the same run of a program, and all totals that a run leaves alone are equal. -/
structure SameBooks (p : SyntheticProgram) (lanes : Nat) (after job : Job SyntheticProgram μ π) :
    Prop where
  follows : after.Follows p lanes
  sameRun : after.SameRun job
  ledger : ∀ held price, Transfers lanes job.launch held price → Holding μ p held →
    after.ledger held price = job.ledger held price

theorem SameBooks.refl (follows : job.Follows p lanes) : SameBooks p lanes job job :=
  ⟨follows, .refl _, fun _ _ _ _ => rfl⟩

theorem SameBooks.trans {a b c : Job SyntheticProgram μ π} (second : SameBooks p lanes b c)
    (first : SameBooks p lanes a b) : SameBooks p lanes a c where
  follows := first.follows
  sameRun := first.sameRun.trans second.sameRun
  ledger held price transfers holding := by
    have transfers' : Transfers lanes b.launch held price := by
      unfold Transfers
      rw [second.sameRun.shape.wavefrontsOf]
      exact transfers
    rw [first.ledger held price transfers' holding, second.ledger held price transfers holding]

theorem SameBooks.of_hands (follows : job.Follows p lanes) (path : ReflTransGen Hands job after) :
    SameBooks p lanes after job := by
  induction path with
  | refl => exact .refl follows
  | tail _ hands ih =>
      exact ih.trans ⟨hands.follows ih.follows, hands.sameRun,
        fun _ _ transfers _ => hands.ledger_eq ih.follows transfers⟩

theorem SameBooks.of_sweeps {units : List Nat} (follows : job.Follows p lanes)
    (kept : .end ∉ p.kinds) (sweeps : Sweeps units job after) : SameBooks p lanes after job := by
  induction sweeps with
  | nil => exact .refl follows
  | cons works _ ih =>
      have first : SameBooks p lanes _ _ := ⟨works.follows follows kept, works.sameRun,
        fun _ _ _ holding => works.ledger_eq follows holding⟩
      exact first.trans (ih first.follows)

omit [Placement π] [MemoryService μ] in
/-- What has been counted and what is still owed make up a total that a run leaves alone. -/
theorem transfers_owed (t : Tariff) (p : SyntheticProgram) (lanes : Nat) (nd : NdRange)
    (count : UnitStats → Nat) :
    Transfers lanes nd (fun u => count u.stats + u.owed t p) (groupPrice t p lanes nd) := by
  intro u group wavefronts sound width free listed
  show count u.stats + (u.loaded group wavefronts).owed t p =
    count u.stats + u.owed t p + groupPrice t p lanes nd group
  rw [sound.owed_loaded free, sound.owed_eq_zero free, groupPrice, listed, width]
  rfl

/-! ## The work that is left -/

/-- The work that units have left, and that is put down for the groups that wait. -/
def workLeft (job : Job SyntheticProgram μ π) (p : SyntheticProgram) (lanes : Nat) : Nat :=
  job.ledger (·.workLeft p) fun group => groupPrice .work p lanes job.launch group + 1

omit [Placement π] [MemoryService μ] in
theorem transfers_workLeft (p : SyntheticProgram) (lanes : Nat) (nd : NdRange) :
    Transfers lanes nd (·.workLeft p) fun group => groupPrice .work p lanes nd group + 1 := by
  intro u group wavefronts sound width free listed
  have busy : (u.loaded group wavefronts).isBusy = true := rfl
  have idle : u.isBusy = false := by rw [ComputeUnit.isBusy, free]; rfl
  simp only [ComputeUnit.workLeft, sound.owed_loaded free, sound.owed_eq_zero free, groupPrice,
    listed, width, busy, idle]
  simp

omit [Placement π] [MemoryService μ] in
theorem SameRun.groupPrice_eq (same : after.SameRun job) (t : Tariff) :
    groupPrice t p lanes after.launch = groupPrice t p lanes job.launch := by
  funext group
  rw [groupPrice, same.shape.wavefrontsOf, groupPrice]

theorem workLeft_of_hands (follows : job.Follows p lanes) (path : ReflTransGen Hands job after) :
    after.workLeft p lanes = job.workLeft p lanes := by
  induction path with
  | refl => rfl
  | tail path hands ih =>
      have between := SameBooks.of_hands follows path
      rw [← ih, workLeft, hands.sameRun.groupPrice_eq]
      exact hands.ledger_eq between.follows (transfers_workLeft p lanes _)

/-- The unit of a number has something in its execute stage. -/
def Executes (job : Job SyntheticProgram μ π) (unit : Nat) (ex : Execution) : Prop :=
  ∃ u, job.device.cluster.units[unit]? = some u ∧ u.executing = some ex

/-- A unit that works has less work left afterwards, or it waits for the memory. -/
theorem Works.workLeft_lt (works : job.Works unit after) (follows : job.Follows p lanes)
    (kept : .end ∉ p.kinds) :
    after.workLeft p lanes < job.workLeft p lanes ∨
      (after.workLeft p lanes = job.workLeft p lanes ∧
        ∃ ex, job.Executes unit ex ∧ after.Executes unit ex ∧ job.device.cycle < ex.readyAt) := by
  rcases works.change follows.isa with ⟨u, resident, busy, units, -⟩
  have sum := works.ledger_add follows.isa resident (·.workLeft p) fun group =>
    groupPrice .work p lanes job.launch group + 1
  rw [workLeft, works.sameRun.groupPrice_eq, workLeft]
  have less := (follows.units unit u resident).1.work_afterwards
    (follows.owned.sound unit u resident) kept busy job.device.cluster.memory job.device.cycle
  rcases less with less | ⟨same, ex, here, there, waits⟩
  · left
    omega
  · right
    refine ⟨by omega, ex, ⟨u, resident, here⟩, ⟨_, ?_, there⟩, waits⟩
    rw [units, if_pos rfl]

end Accelerator.Job
