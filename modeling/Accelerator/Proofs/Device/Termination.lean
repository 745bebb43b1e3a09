import Accelerator.Proofs.Device.Ledger

/-!
# Every run ends

Two things become less in a run. In every cycle there is less work left, or else all busy units
wait for the memory. While they wait the same instructions stay in the execute stage, and the
cycle from which on the first of them can go on comes closer. So a run that is not over after
dispatch cannot go on for ever, whatever the program does and however long the memory takes.
-/

namespace Accelerator.Job

open Relation

variable {μ π : Type} [Placement π] [MemoryService μ] {p : SyntheticProgram} {lanes unit : Nat}
  {job after : Job SyntheticProgram μ π}

/-! ## A cycle -/

omit [Placement π] in
theorem Sweeps.getElem?_units {units : List Nat} (sweeps : Sweeps units job after)
    (idle : unit ∉ units) :
    after.device.cluster.units[unit]? = job.device.cluster.units[unit]? := by
  induction sweeps with
  | nil => rfl
  | cons works _ ih =>
      rw [List.mem_cons, not_or] at idle
      rw [ih idle.2, works.getElem?_units idle.1]

/-- Units that work one after the other have less work left afterwards, or all of them wait for the
memory. -/
theorem Sweeps.workLeft_lt {units : List Nat} (sweeps : Sweeps units job after)
    (follows : job.Follows p lanes) (kept : .end ∉ p.kinds) (distinct : units.Nodup) :
    after.workLeft p lanes < job.workLeft p lanes ∨
      (after.workLeft p lanes = job.workLeft p lanes ∧ ∀ unit ∈ units,
        ∃ ex, job.Executes unit ex ∧ after.Executes unit ex ∧ job.device.cycle < ex.readyAt) := by
  induction sweeps with
  | nil => exact Or.inr ⟨rfl, fun _ member => absurd member List.not_mem_nil⟩
  | @cons unit rest job next after works sweeps ih =>
      -- No unit comes twice, so what one of them has done is not touched by those behind it.
      rcases List.nodup_cons.mp distinct with ⟨fresh, distinct⟩
      have others := ih (works.follows follows kept) distinct
      rcases works.workLeft_lt follows kept with less | ⟨same, ex, here, there, waits⟩
      · left
        rcases others with less' | ⟨same', -⟩ <;> omega
      · rcases others with less' | ⟨same', others⟩
        · left
          omega
        · refine Or.inr ⟨same'.trans same, fun other member => ?_⟩
          rcases List.mem_cons.mp member with rfl | later
          · refine ⟨ex, here, ?_, waits⟩
            unfold Executes
            rw [sweeps.getElem?_units fresh]
            exact there
          · rcases others other later with ⟨ex', here', there', waits'⟩
            have differs : other ≠ unit := fun same => fresh (same ▸ later)
            refine ⟨ex', ?_, there', works.cycle_eq ▸ waits'⟩
            unfold Executes
            rw [← works.getElem?_units differs]
            exact here'

omit [Placement π] [MemoryService μ] in
theorem Executes.unique {ex ex' : Execution} (first : job.Executes unit ex)
    (second : job.Executes unit ex') : ex = ex' := by
  rcases first with ⟨u, resident, working⟩
  rcases second with ⟨v, resident', working'⟩
  cases resident.symm.trans resident'
  exact Option.some.inj (working.symm.trans working')

omit [MemoryService μ] in
/-- A unit that executes something holds a group. -/
theorem Executes.group_ne_none {u : ComputeUnit} {ex : Execution} (owned : job.Owned)
    (resident : job.device.cluster.units[unit]? = some u) (working : u.executing = some ex) :
    u.group ≠ none := by
  intro free
  have empty := (owned.sound unit u resident).slots_eq_nil free
  simp [ComputeUnit.slots, working] at empty

omit [MemoryService μ] in
theorem Executes.busy {ex : Execution} (executes : job.Executes unit ex) (owned : job.Owned) :
    job.device.busy.contains unit = true := by
  rcases executes with ⟨u, resident, working⟩
  obtain ⟨group, held⟩ :=
    Option.ne_none_iff_exists'.mp (Executes.group_ne_none owned resident working)
  exact (owned.busy unit).mpr ⟨group, u, resident, held⟩

/-- Dispatch leaves alone what is executed. -/
theorem Executes.of_hands {ex : Execution} (executes : job.Executes unit ex)
    (follows : job.Follows p lanes) (path : ReflTransGen Hands job after) :
    after.Executes unit ex := by
  induction path with
  | refl => exact executes
  | tail path hands ih =>
      rcases ih with ⟨u, resident, working⟩
      have owned := (SameBooks.of_hands follows path).follows.owned
      exact ⟨u, hands.getElem?_units resident (Executes.group_ne_none owned resident working),
        working⟩

/-- All units that are at work wait for the memory, and a cycle that passes does not help them. -/
structure Stalls (job next : Job SyntheticProgram μ π) : Prop where
  executes : ∃ unit ex, next.Executes unit ex
  waits : ∀ unit ex, job.Executes unit ex →
    next.Executes unit ex ∧ job.device.cycle < ex.readyAt

/-- In a cycle of the device there becomes less work, or all units wait. -/
theorem Follows.advance (follows : job.Follows p lanes) (kept : .end ∉ p.kinds)
    (goes_on : job.device.busy.isEmpty = false) :
    ∃ next, advance.outcome job = (.ok (), next) ∧ SameBooks p lanes next job ∧
      next.device.cycle = job.device.cycle + 1 ∧
      (next.workLeft p lanes < job.workLeft p lanes ∨
        next.workLeft p lanes = job.workLeft p lanes ∧ Stalls job next) := by
  rcases follows.owned.busyListed with ⟨busy, listed⟩
  rcases follows.owned.advance with ⟨next, sweeps, advanced⟩
  have ticked : job.ticked.Follows p lanes :=
    ⟨follows.owned.ticked, follows.isa, follows.units, follows.items⟩
  have books : SameBooks p lanes job.ticked job :=
    ⟨ticked, ⟨rfl, rfl, .refl _⟩, fun _ _ _ _ => rfl⟩
  rw [listed.toList_eq] at sweeps
  refine ⟨next, advanced, books.trans (.of_sweeps ticked kept sweeps), sweeps.cycle_eq, ?_⟩
  rcases sweeps.workLeft_lt ticked kept listed.distinct with less | ⟨same, waits⟩
  · exact Or.inl less
  · refine Or.inr ⟨same, ?_, fun unit ex executes => ?_⟩
    · rw [listed.isEmpty_eq] at goes_on
      rcases busy with _ | ⟨unit, rest⟩
      · cases goes_on
      · rcases waits unit (List.mem_cons_self ..) with ⟨ex, -, there, -⟩
        exact ⟨unit, ex, there⟩
    · have member := (listed.member unit).mp (executes.busy follows.owned)
      rcases waits unit member with ⟨ex', here, there, late⟩
      cases executes.unique here
      exact ⟨there, Nat.lt_of_succ_lt late⟩

/-! ## A turn of the loop -/

/-- With another turn of the loop a run comes from one job to the next, in which there is less work
left or which stalls. -/
structure Turn (p : SyntheticProgram) (lanes : Nat) (job next : Job SyntheticProgram μ π) : Prop where
  drive_eq : ∀ room, (drive (room + 1) none).outcome job = (drive room none).outcome next
  books : SameBooks p lanes next job
  cycle_eq : next.device.cycle = job.device.cycle + 1
  progress : next.workLeft p lanes < job.workLeft p lanes ∨
    next.workLeft p lanes = job.workLeft p lanes ∧ Stalls job next

/-- With room for so many cycles the loop comes to an end. -/
structure Ends (p : SyntheticProgram) (lanes : Nat) (job final : Job SyntheticProgram μ π)
    (cycles : Nat) : Prop where
  drive_eq : ∀ room, cycles ≤ room → (drive room none).outcome job = finish.outcome final
  quiet : Quiet final
  books : SameBooks p lanes final job
  cycle_eq : final.device.cycle = job.device.cycle + cycles

theorem Turn.ends {next final : Job SyntheticProgram μ π} {cycles : Nat}
    (turn : Turn p lanes job next) (ends : Ends p lanes next final cycles) :
    Ends p lanes job final (cycles + 1) where
  drive_eq room enough := by
    rcases Nat.exists_eq_add_of_lt enough with ⟨room, rfl⟩
    rw [turn.drive_eq]
    exact ends.drive_eq _ (Nat.le_add_right _ _)
  quiet := ends.quiet
  books := turn.books.trans ends.books
  cycle_eq := by
    have first := turn.cycle_eq
    have rest := ends.cycle_eq
    omega

/-- A run is over after dispatch, or goes on for another turn of the loop. -/
theorem Follows.turn (follows : job.Follows p lanes) (kept : .end ∉ p.kinds) :
    (∃ final, Ends p lanes job final 0) ∨ ∃ next, Turn p lanes job next := by
  rcases follows.owned.place with ⟨placed, done, path, exhausted⟩
  have books := SameBooks.of_hands follows path
  have work := workLeft_of_hands follows path
  rcases follows.owned.of_hands path with ⟨-, -, cycle⟩
  cases idle : placed.device.busy.isEmpty with
  | true =>
      refine Or.inl ⟨placed, fun room _ => ?_, ⟨exhausted, idle⟩, books, cycle⟩
      rw [drive_outcome done, idle, if_pos rfl]
  | false =>
      rcases books.follows.advance kept idle with ⟨next, advanced, books', cycle', progress⟩
      refine Or.inr ⟨next, drive_succ_outcome done idle advanced, books.trans books', ?_, ?_⟩
      · rw [cycle', cycle]
      · rw [work] at progress
        rcases progress with less | ⟨same, stalls⟩
        · exact Or.inl less
        · refine Or.inr ⟨same, stalls.executes, fun unit ex executes => ?_⟩
          rw [← cycle]
          exact stalls.waits unit ex (executes.of_hands follows path)

/-! ## The end -/

/-- A run ends if it does so after every turn of the loop that may come first. -/
theorem Follows.ends_of_turn (follows : job.Follows p lanes) (kept : .end ∉ p.kinds)
    (later : ∀ next, Turn p lanes job next → ∃ final cycles, Ends p lanes next final cycles) :
    ∃ final cycles, Ends p lanes job final cycles := by
  rcases follows.turn kept with ⟨final, ends⟩ | ⟨next, turn⟩
  · exact ⟨final, 0, ends⟩
  · rcases later next turn with ⟨final, cycles, ends⟩
    exact ⟨final, cycles + 1, turn.ends ends⟩

/-- A stall is over at the latest when the memory is ready. -/
theorem Follows.ends_of_executes {left wait : Nat} {ex : Execution} (kept : .end ∉ p.kinds)
    (less : ∀ job : Job SyntheticProgram μ π, job.Follows p lanes → job.workLeft p lanes < left →
      ∃ final cycles, Ends p lanes job final cycles)
    (follows : job.Follows p lanes) (work : job.workLeft p lanes = left)
    (executes : job.Executes unit ex) (soon : ex.readyAt ≤ job.device.cycle + wait) :
    ∃ final cycles, Ends p lanes job final cycles := by
  -- On the cycles until the memory is ready, for one instruction that waits for it.
  induction wait generalizing job with
  | zero =>
      apply follows.ends_of_turn kept
      intro next turn
      rcases turn.progress with fewer | ⟨-, stalls⟩
      · exact less next turn.books.follows (work ▸ fewer)
      · exact absurd soon (Nat.not_le.mpr (stalls.waits unit ex executes).2)
  | succ wait ih =>
      apply follows.ends_of_turn kept
      intro next turn
      rcases turn.progress with fewer | ⟨same, stalls⟩
      · exact less next turn.books.follows (work ▸ fewer)
      · have sooner : ex.readyAt ≤ next.device.cycle + wait := by
          rw [turn.cycle_eq]
          omega
        exact ih turn.books.follows (same.trans work) (stalls.waits unit ex executes).1 sooner

/-- Every run of a program ends. -/
theorem Follows.ends (follows : job.Follows p lanes) (kept : .end ∉ p.kinds) :
    ∃ final cycles, Ends p lanes job final cycles := by
  -- On the work that is left, which only a stall keeps as it is.
  induction work : job.workLeft p lanes using Nat.strong_induction_on generalizing job with
  | h left ih =>
      have less : ∀ job : Job SyntheticProgram μ π, job.Follows p lanes →
          job.workLeft p lanes < left → ∃ final cycles, Ends p lanes job final cycles :=
        fun job follows fewer => ih _ fewer follows rfl
      apply follows.ends_of_turn kept
      intro next turn
      rcases turn.progress with fewer | ⟨same, stalls⟩
      · exact less next turn.books.follows (work ▸ fewer)
      · rcases stalls.executes with ⟨unit, ex, executes⟩
        exact Follows.ends_of_executes kept less turn.books.follows (same.trans work) executes
          (Nat.le_add_left ..)

end Accelerator.Job
