import Accelerator.Placement
import Accelerator.Proofs.UnitSet

/-!
# Reliable placements

A placement may answer with a unit that is not idle, or with none although some unit is idle; the
scripted ones do. A *reliable* one never does, however often it is asked. The placements that a
configuration can name are reliable.

Where the idle units are listed in the order of their numbers, these two placements even pick the
same one, again and again: the round-robin cursor is at the first idle unit, or past all of them.
-/

namespace Accelerator

/-- As long as some unit is idle the placement picks an idle one, now and after every pick. -/
def Placement.Reliable {π : Type} [Placement π] (placement : π) : Prop :=
  ∃ Good : π → Prop, Good placement ∧
    ∀ (p : π) (idle : UnitSet) (units : List Nat), Good p → idle.Lists units → units ≠ [] →
      ∃ unit ∈ units, ∃ q, Placement.pick p idle = (some unit, q) ∧ Good q

namespace Placement

variable {π : Type} [Placement π]

theorem Reliable.pick {placement : π} {idle : UnitSet} {units : List Nat}
    (reliable : Reliable placement) (lists : idle.Lists units) (some_idle : units ≠ []) :
    ∃ unit ∈ units, ∃ q : π, Placement.pick placement idle = (some unit, q) ∧ Reliable q := by
  obtain ⟨Good, now, always⟩ := reliable
  obtain ⟨unit, member, q, picked, good⟩ := always placement idle units now lists some_idle
  exact ⟨unit, member, q, picked, Good, good, always⟩

/-- A placement that is reliable in every state. -/
theorem reliable_of_pick
    (picks : ∀ (p : π) (idle : UnitSet) (units : List Nat), idle.Lists units → units ≠ [] →
      ∃ unit ∈ units, ∃ q, Placement.pick p idle = (some unit, q)) (placement : π) :
    Reliable placement := by
  refine ⟨fun _ => True, trivial, fun p idle units _ lists some_idle => ?_⟩
  obtain ⟨unit, member, q, picked⟩ := picks p idle units lists some_idle
  exact ⟨unit, member, q, picked, trivial⟩

end Placement

open Placement

theorem FirstIdle.reliable (p : FirstIdle) : Reliable p := by
  refine reliable_of_pick (fun p idle units lists some_idle => ?_) p
  cases units with
  | nil => exact absurd rfl some_idle
  | cons unit rest =>
      refine ⟨unit, List.mem_cons_self .., p, ?_⟩
      show (idle.front, p) = _
      rw [lists.front_eq, List.head?_cons]

/-- Among the units from the cursor on, or else among all, there is a smallest one. -/
theorem RoundRobin.reliable (p : RoundRobin) : Reliable p := by
  refine reliable_of_pick (fun p idle units lists some_idle => ?_) p
  obtain ⟨least, isLeast⟩ := Option.ne_none_iff_exists'.mp
    (mt List.min?_eq_none_iff.mp some_idle)
  have picks : ∀ {unit}, (units.filter (p.cursor ≤ ·)).min?.or units.min? = some unit →
      Placement.pick p idle = (some unit, { cursor := unit + 1 }) := by
    intro unit first
    rw [← lists.toList_eq] at first
    simp only [Placement.pick, first]
  rcases ahead : (units.filter (p.cursor ≤ ·)).min? with _ | next
  · refine ⟨least, List.min?_mem isLeast, ⟨least + 1⟩, picks ?_⟩
    rw [ahead, isLeast, Option.none_or]
  · refine ⟨next, List.mem_of_mem_filter (List.min?_mem ahead), ⟨next + 1⟩, picks ?_⟩
    rw [ahead, Option.some_or]

/-- Both placements that a configuration can name are reliable. -/
theorem PlacementPolicy.reliable_build (policy : PlacementPolicy) : Reliable policy.build := by
  refine ⟨fun placer => ∀ script, placer ≠ .scripted script, ?_, ?_⟩
  · cases policy <;> exact fun _ => Placer.noConfusion
  · intro placer idle units named lists some_idle
    cases placer with
    | firstIdle p =>
        obtain ⟨unit, member, q, picked, -⟩ := (FirstIdle.reliable p).pick lists some_idle
        refine ⟨unit, member, .firstIdle q, ?_, fun _ => Placer.noConfusion⟩
        show (Placement.pick p idle).map id Placer.firstIdle = _
        rw [picked]
        rfl
    | roundRobin p =>
        obtain ⟨unit, member, q, picked, -⟩ := (RoundRobin.reliable p).pick lists some_idle
        refine ⟨unit, member, .roundRobin q, ?_, fun _ => Placer.noConfusion⟩
        show (Placement.pick p idle).map id Placer.roundRobin = _
        rw [picked]
        rfl
    | scripted script => exact absurd rfl (named script)

/-! ## Policies -/

/-- The policy that a placement follows, unless it goes by a script. -/
def Placer.policy? : Placer → Option PlacementPolicy
  | firstIdle _ => some .firstIdle
  | roundRobin _ => some .roundRobin
  | scripted _ => none

theorem PlacementPolicy.policy?_build (policy : PlacementPolicy) :
    policy.build.policy? = some policy := by
  cases policy <;> rfl

/-- A placement follows one policy all its life. -/
theorem Placer.policy?_pick (placer : Placer) (idle : UnitSet) :
    (Placement.pick placer idle).2.policy? = placer.policy? := by
  cases placer <;> rfl

theorem min?_eq_of_perm {units units' : List Nat} (perm : units.Perm units') :
    units.min? = units'.min? := by
  rcases least : units'.min? with _ | unit
  · rw [List.min?_eq_none_iff] at least ⊢
    rw [least] at perm
    exact perm.eq_nil
  · rw [List.min?_eq_some_iff] at least ⊢
    exact ⟨perm.mem_iff.mpr least.1, fun other member => least.2 other (perm.mem_iff.mp member)⟩

/-- The unit that has been idle longest is picked under the policy that says so. -/
theorem Placer.pick_firstIdle {placer : Placer} (follows : placer.policy? = some .firstIdle)
    {idle : UnitSet} {units : List Nat} (listed : idle.Lists units) :
    (Placement.pick placer idle).1 = units.head? := by
  cases placer with
  | firstIdle p => exact listed.front_eq
  | roundRobin => cases follows
  | scripted => cases follows

/-- Which unit a round-robin placement picks has nothing to do with the order in which units became
idle. The other policy goes by the first of them. -/
theorem Placer.pick_congr {placer : Placer} {policy : PlacementPolicy}
    (follows : placer.policy? = some policy) {idle idle' : UnitSet} {units units' : List Nat}
    (listed : idle.Lists units) (listed' : idle'.Lists units') (perm : units.Perm units')
    (first : policy = .firstIdle → units.head? = units'.head?) :
    Placement.pick placer idle = Placement.pick placer idle' := by
  cases placer with
  | firstIdle p =>
      show (idle.front, Placer.firstIdle p) = (idle'.front, Placer.firstIdle p)
      rw [listed.front_eq, listed'.front_eq, first (Option.some.inj follows).symm]
  | roundRobin p =>
      have least := min?_eq_of_perm perm
      have ahead := min?_eq_of_perm (perm.filter (p.cursor ≤ ·))
      have same : Placement.pick p idle = Placement.pick p idle' := by
        simp only [Placement.pick, listed.toList_eq, listed'.toList_eq, least, ahead]
      show (Placement.pick p idle).map id Placer.roundRobin = _
      rw [same]
      rfl
  | scripted => cases follows

/-! ## Picks in order -/

/-- The placement will pick unit `k` next if that is the first idle one of `units` units. -/
def Placer.Orderly (units k : Nat) : Placer → Prop
  | firstIdle _ => True
  | roundRobin p => p.cursor = k ∨ k = 0 ∧ units ≤ p.cursor
  | scripted _ => False

namespace Placer.Orderly

variable {placer : Placer} {units k : Nat}

theorem build (policy : PlacementPolicy) (units : Nat) : policy.build.Orderly units 0 := by
  cases policy with
  | firstIdle => trivial
  | roundRobin => exact Or.inl rfl

/-- After the last unit comes the first. -/
theorem wrap (orderly : placer.Orderly units units) : placer.Orderly units 0 := by
  cases placer with
  | firstIdle => trivial
  | roundRobin p =>
      refine Or.inr ⟨rfl, ?_⟩
      rcases orderly with same | ⟨-, past⟩
      · exact Nat.le_of_eq same.symm
      · exact past
  | scripted => exact orderly

/-- The units from `k` on are idle: the first of them is picked, and the next one will be. -/
theorem pick (orderly : placer.Orderly units k) {idle : UnitSet}
    (lists : idle.Lists (List.range' k (units - k))) (inside : k < units) :
    ∃ next : Placer, Placement.pick placer idle = (some k, next) ∧ next.Orderly units (k + 1) := by
  obtain ⟨n, rfl⟩ := Nat.exists_eq_add_of_lt inside
  have ascending : List.range' k (k + n + 1 - k) = k :: List.range' (k + 1) n := by
    rw [show k + n + 1 - k = n + 1 by omega, List.range'_succ]
  rw [ascending] at lists
  cases placer with
  | firstIdle p =>
      refine ⟨.firstIdle p, ?_, trivial⟩
      show (idle.front, Placer.firstIdle p) = _
      rw [lists.front_eq, List.head?_cons]
  | roundRobin p =>
      have least : (k :: List.range' (k + 1) n).min? = some k := by
        rw [List.min?_eq_some_iff]
        refine ⟨List.mem_cons_self .., fun unit member => ?_⟩
        rcases List.mem_cons.mp member with rfl | later
        · exact Nat.le_refl _
        · exact Nat.le_of_succ_le (List.mem_range'_1.mp later).1
      have chosen : ((k :: List.range' (k + 1) n).filter (p.cursor ≤ ·)).min?.or
          (k :: List.range' (k + 1) n).min? = some k := by
        rcases orderly with rfl | ⟨first, past⟩
        · have all : (p.cursor :: List.range' (p.cursor + 1) n).filter (p.cursor ≤ ·) =
              p.cursor :: List.range' (p.cursor + 1) n := by
            refine List.filter_eq_self.mpr fun unit member => decide_eq_true ?_
            rcases List.mem_cons.mp member with rfl | later
            · exact Nat.le_refl _
            · exact Nat.le_of_succ_le (List.mem_range'_1.mp later).1
          rw [all, least, Option.some_or]
        · have none : (k :: List.range' (k + 1) n).filter (p.cursor ≤ ·) = [] := by
            refine List.filter_eq_nil_iff.mpr fun unit member => ?_
            have below : unit < k + n + 1 := by
              rcases List.mem_cons.mp member with rfl | later
              · exact inside
              · have bound := (List.mem_range'_1.mp later).2
                omega
            simpa using Nat.lt_of_lt_of_le below past
          rw [none, List.min?_nil, Option.none_or, least]
      refine ⟨.roundRobin { cursor := k + 1 }, ?_, Or.inl rfl⟩
      have picked : Placement.pick p idle = (some k, { cursor := k + 1 }) := by
        rw [← lists.toList_eq] at chosen
        simp only [Placement.pick, chosen]
      show (Placement.pick p idle).map id Placer.roundRobin = _
      rw [picked]
      rfl
  | scripted => exact orderly.elim

end Placer.Orderly

end Accelerator
