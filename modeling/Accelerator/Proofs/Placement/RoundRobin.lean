import Accelerator.Proofs.Placement
import Accelerator.Proofs.Rotation
import Accelerator.Proofs.UnitSet.Calls

/-!
# Round-robin placement

A round-robin placement goes round the units: it picks the first idle one that is met when counting
from one past the unit that it picked last. It is asked again and again, and which units are idle
may have changed in any way meanwhile.

It is fair to every unit that stays idle (`RoundRobin.picks_in_turn`): nobody is picked twice before
such a unit has been picked, so it has been picked after as many picks as there are units.
-/

namespace Accelerator

/-- A set that has come about by calls. -/
def UnitSet.Built (s : UnitSet) : Prop :=
  ∃ (origin : Origin) (capacity : Nat) (calls : List Call),
    s = (session perform (origin.set capacity) calls).2

theorem UnitSet.Built.lists {s : UnitSet} (built : s.Built) : ∃ l, s.Lists l := by
  obtain ⟨origin, capacity, calls, rfl⟩ := built
  obtain ⟨l, clean⟩ : ∃ l, (session perform (origin.set capacity) calls).2.Clean l := by
    refine session_kept (P := fun s : UnitSet => ∃ l, s.Clean l) ?_
      ⟨origin.members capacity, origin.clean capacity⟩
    rintro s call - ⟨l, clean⟩
    exact ⟨(call.onList s.capacity l).2, (clean.perform call).2⟩
  exact ⟨l, clean.toLists⟩

namespace RoundRobin

/-! ## One pick -/

variable {p : RoundRobin} {idle : UnitSet} {units : List Nat}

/-- The smallest unit from the cursor on, or else the smallest one, is the first idle one that is met
when counting round from the cursor on. -/
theorem least_eq_find? (lists : idle.Lists units) (start : Nat) :
    (units.filter (start ≤ ·)).min?.or units.min? =
      (countFrom start idle.capacity).find? idle.contains := by
  have member := lists.member
  rcases ahead : (units.filter (start ≤ ·)).min? with _ | first
  · have none_ahead := List.filter_eq_nil_iff.mp (List.min?_eq_none_iff.mp ahead)
    rw [Option.none_or]
    rcases least : units.min? with _ | first
    · rw [List.min?_eq_none_iff] at least
      symm
      rw [List.find?_eq_none]
      intro unit _ idle_unit
      exact absurd ((member unit).mp idle_unit) (by simp [least])
    · obtain ⟨here, smallest⟩ := List.min?_eq_some_iff.mp least
      symm
      rw [find?_countFrom_eq_some_iff]
      refine ⟨lists.lt_capacity here, (member first).mpr here, fun other _ idle_other differs => ?_⟩
      have there := (member other).mp idle_other
      have less := smallest other there
      have behind := none_ahead other there
      rw [decide_eq_true_eq] at behind
      exact Or.inr ⟨by omega, Or.inr (by omega)⟩
  · obtain ⟨here, smallest⟩ := List.min?_eq_some_iff.mp ahead
    obtain ⟨here, after⟩ := List.mem_filter.mp here
    rw [decide_eq_true_eq] at after
    rw [Option.some_or]
    symm
    rw [find?_countFrom_eq_some_iff]
    refine ⟨lists.lt_capacity here, (member first).mpr here, fun other _ idle_other differs => ?_⟩
    have there := (member other).mp idle_other
    rcases Nat.lt_or_ge other start with behind | beyond
    · exact Or.inl ⟨after, behind⟩
    · have less := smallest other (List.mem_filter.mpr ⟨there, decide_eq_true beyond⟩)
      exact Or.inr ⟨by omega, Or.inl after⟩

/-- What is picked is the first idle unit from the cursor on, and the cursor moves past it. -/
theorem pick_eq (lists : idle.Lists units) (p : RoundRobin) :
    Placement.pick p idle =
      match (countFrom p.cursor idle.capacity).find? idle.contains with
      | some unit => (some unit, { cursor := unit + 1 })
      | none => (none, p) := by
  rw [← least_eq_find? lists, ← lists.toList_eq]
  rfl

theorem fst_pick (lists : idle.Lists units) (p : RoundRobin) :
    (Placement.pick p idle).1 = (countFrom p.cursor idle.capacity).find? idle.contains := by
  rw [pick_eq lists]
  rcases (countFrom p.cursor idle.capacity).find? idle.contains with _ | unit <;> rfl

/-- As long as some unit is idle, an idle one is picked, and before its turn no other. -/
theorem pick_of_idle (lists : idle.Lists units) (p : RoundRobin) {unit : Nat}
    (waits : idle.contains unit = true) :
    ∃ v, Placement.pick p idle = (some v, { cursor := v + 1 }) ∧ idle.contains v = true ∧
      v < idle.capacity ∧ (v ≠ unit → Before p.cursor v unit) := by
  have inside := lists.lt_capacity ((lists.member unit).mp waits)
  rw [pick_eq lists]
  rcases found : (countFrom p.cursor idle.capacity).find? idle.contains with _ | v
  · exact absurd waits (List.find?_eq_none.mp found unit (mem_countFrom.mpr inside))
  · obtain ⟨below, picked, first⟩ := find?_countFrom_eq_some_iff.mp found
    exact ⟨v, rfl, picked, below, fun differs => first unit inside waits (Ne.symm differs)⟩

/-! ## Picks in a row -/

/-- Where a placement that has given some answers counts from: one past the unit that it has picked
last. -/
def startAfter (p : RoundRobin) (answers : List (Option Nat)) : Nat :=
  match answers.reduceOption.getLast? with
  | some unit => unit + 1
  | none => p.cursor

theorem startAfter_cons_some (p : RoundRobin) (unit : Nat) (answers : List (Option Nat)) :
    p.startAfter (some unit :: answers) = startAfter { cursor := unit + 1 } answers := by
  have more : (some unit :: answers).reduceOption = unit :: answers.reduceOption := rfl
  rw [startAfter, startAfter, more, List.getLast?_cons]
  rcases answers.reduceOption.getLast? with _ | last <;> rfl

/-- The answers so far are all that the next one depends on. -/
theorem cursor_session {idles : List UnitSet} (built : ∀ idle ∈ idles, idle.Built)
    (p : RoundRobin) :
    (session Placement.pick p idles).2.cursor =
      p.startAfter (session Placement.pick p idles).1 := by
  induction idles generalizing p with
  | nil => rfl
  | cons idle rest ih =>
      obtain ⟨units, lists⟩ := (built idle (List.mem_cons_self ..)).lists
      have later := ih fun idle member => built idle (List.mem_cons_of_mem _ member)
      rw [session_cons, later, pick_eq lists]
      rcases (countFrom p.cursor idle.capacity).find? idle.contains with _ | unit
      · rfl
      · exact (startAfter_cons_some p unit _).symm

/-- While a unit stays idle an idle unit is picked each time, and until it is picked itself it is
passed over. -/
theorem passes_session {idles : List UnitSet} {unit : Nat} (built : ∀ idle ∈ idles, idle.Built)
    (waits : ∀ idle ∈ idles, idle.contains unit = true) (p : RoundRobin) :
    ∃ vs, (session Placement.pick p idles).1 = vs.map some ∧
      (unit ∉ vs → Passes unit p.cursor vs) := by
  induction idles generalizing p with
  | nil => exact ⟨[], rfl, fun _ => .nil⟩
  | cons idle rest ih =>
      obtain ⟨units, lists⟩ := (built idle (List.mem_cons_self ..)).lists
      obtain ⟨v, picked, -, -, first⟩ := pick_of_idle lists p (waits idle (List.mem_cons_self ..))
      obtain ⟨vs, others, passes⟩ := ih (fun idle member => built idle (.tail _ member))
        (fun idle member => waits idle (.tail _ member)) { cursor := v + 1 }
      refine ⟨v :: vs, ?_, fun absent => ?_⟩
      · rw [session_cons, picked, others, List.map_cons]
      · obtain ⟨differs, absent⟩ := not_or.mp (mt List.mem_cons.mpr absent)
        exact .cons (first (Ne.symm differs)) (passes absent)

section Idle

variable {idles : List UnitSet} {unit n : Nat}

/-- While a unit stays idle and has not been picked, nobody is picked twice. -/
theorem nodup_session (built : ∀ idle ∈ idles, idle.Built)
    (waits : ∀ idle ∈ idles, idle.contains unit = true) (p : RoundRobin)
    (absent : some unit ∉ (session Placement.pick p idles).1) :
    (session Placement.pick p idles).1.Nodup := by
  obtain ⟨vs, answers, passes⟩ := passes_session built waits p
  rw [answers] at absent ⊢
  have passed := passes fun member => absent (List.mem_map_of_mem member)
  exact passed.nodup.map fun _ _ => Option.some.inj

theorem contains_of_mem_session (built : ∀ idle ∈ idles, idle.Built) {p : RoundRobin} {v : Nat}
    (picked : some v ∈ (session Placement.pick p idles).1) :
    ∃ idle ∈ idles, idle.contains v = true := by
  obtain ⟨i, answer⟩ := List.getElem?_of_mem picked
  rw [getElem?_session, Option.map_eq_some_iff] at answer
  obtain ⟨idle, asked, answer⟩ := answer
  have member := List.mem_of_getElem? asked
  obtain ⟨units, lists⟩ := (built idle member).lists
  rw [fst_pick lists, find?_countFrom_eq_some_iff] at answer
  exact ⟨idle, member, answer.2.1⟩

theorem lt_of_mem_session (built : ∀ idle ∈ idles, idle.Built)
    (small : ∀ idle ∈ idles, idle.capacity ≤ n) {p : RoundRobin} {v : Nat}
    (picked : some v ∈ (session Placement.pick p idles).1) : v < n := by
  obtain ⟨idle, member, here⟩ := contains_of_mem_session built picked
  exact Nat.lt_of_lt_of_le (UnitSet.lt_capacity_of_contains here) (small idle member)

/-- A unit that stays idle is picked before there have been more picks than there are units. -/
theorem mem_session (built : ∀ idle ∈ idles, idle.Built)
    (waits : ∀ idle ∈ idles, idle.contains unit = true)
    (small : ∀ idle ∈ idles, idle.capacity ≤ n) (enough : n ≤ idles.length) (some_units : 0 < n)
    (p : RoundRobin) : some unit ∈ (session Placement.pick p idles).1 := by
  by_contra absent
  obtain ⟨vs, answers, passes⟩ := passes_session built waits p
  have passed := passes fun member => absent (answers ▸ List.mem_map_of_mem member)
  have length : vs.length = idles.length := by
    rw [← length_session (f := Placement.pick) p idles, answers, List.length_map]
  have inside : unit < n := by
    obtain ⟨first, member⟩ : ∃ first, first ∈ idles :=
      List.exists_mem_of_length_pos (Nat.lt_of_lt_of_le some_units enough)
    exact Nat.lt_of_lt_of_le (UnitSet.lt_capacity_of_contains (waits first member))
      (small first member)
  have shorter := passed.length_lt inside fun v member =>
    lt_of_mem_session built small (p := p) (answers ▸ List.mem_map_of_mem member)
  omega

/-- As many picks as there are members, among the same members each time, are all of them. -/
theorem perm_session {members : List Nat} (built : ∀ idle ∈ idles, idle.Built)
    (distinct : members.Nodup) (length : idles.length = members.length)
    (same : ∀ idle ∈ idles, ∀ unit, idle.contains unit = true ↔ unit ∈ members) (p : RoundRobin) :
    (session Placement.pick p idles).1.Perm (members.map some) := by
  rcases members with _ | ⟨first, rest⟩
  · rw [List.length_eq_zero_iff.mp length]
    exact .refl _
  generalize members_def : first :: rest = members at *
  have waits : ∀ m ∈ members, ∀ idle ∈ idles, idle.contains m = true :=
    fun m member idle here => (same idle here m).mpr member
  obtain ⟨vs, answers, -⟩ :=
    passes_session built (waits first (members_def ▸ List.mem_cons_self ..)) p
  rw [answers]
  refine (perm_of_fair distinct ?_ ?_ ?_).map some
  · rw [← length, ← length_session (f := Placement.pick) p idles, answers, List.length_map]
  · intro v member
    obtain ⟨idle, here, picked⟩ := contains_of_mem_session (p := p) built
      (answers ▸ List.mem_map_of_mem member)
    exact (same idle here v).mp picked
  · intro k m member absent
    have earlier : (vs.take k).map some = (session Placement.pick p (idles.take k)).1 := by
      rw [← take_session, answers, List.map_take]
    have unpicked : some m ∉ (session Placement.pick p (idles.take k)).1 := by
      rw [← earlier, List.mem_map]
      rintro ⟨v, here, same⟩
      exact absent (Option.some.inj same ▸ here)
    have nodup := nodup_session (fun idle here => built idle (List.mem_of_mem_take here))
      (fun idle here => waits m member idle (List.mem_of_mem_take here)) p unpicked
    rw [← earlier] at nodup
    exact nodup.of_map some

end Idle

/-- Round-robin placement, asked again and again while the idle units change in any way.

Each answer is the first idle unit that is met when counting round from one past the unit picked
before. It is idle, and there is none only if no unit is idle. From any moment on, a unit that stays
idle is picked before anybody is picked twice, and so within as many picks as there are units; and
if the same `n` units stay idle, any `n` picks are all of them. -/
theorem picks_in_turn (p : RoundRobin) (idles : List UnitSet)
    (built : ∀ idle ∈ idles, idle.Built) :
    let answers := (session Placement.pick p idles).1
    (∀ (i : Nat) (idle : UnitSet), idles[i]? = some idle →
      answers[i]? = some
          ((countFrom (p.startAfter (answers.take i)) idle.capacity).find? idle.contains) ∧
        (∀ unit, answers[i]? = some (some unit) → idle.contains unit = true) ∧
        (answers[i]? = some none ↔ idle.isEmpty = true)) ∧
      ∀ moment n : Nat,
        let asked := (idles.drop moment).take n
        let picks := (answers.drop moment).take n
        (∀ unit, (∀ idle ∈ asked, idle.contains unit = true) → some unit ∉ picks → picks.Nodup) ∧
          (∀ unit, (∀ idle ∈ asked, idle.contains unit = true ∧ idle.capacity ≤ n) →
            0 < n → asked.length = n → some unit ∈ picks) ∧
          ∀ members : List Nat, members.Nodup → members.length = n → asked.length = n →
            (∀ idle ∈ asked, ∀ unit, idle.contains unit = true ↔ unit ∈ members) →
            picks.Perm (members.map some) := by
  refine ⟨fun i idle asked => ?_, fun moment n => ?_⟩
  · obtain ⟨units, lists⟩ := (built idle (List.mem_of_getElem? asked)).lists
    have answer : (session Placement.pick p idles).1[i]? = some ((countFrom
        (p.startAfter ((session Placement.pick p idles).1.take i)) idle.capacity).find?
          idle.contains) := by
      rw [take_session, ← cursor_session fun idle member => built idle (List.mem_of_mem_take member),
        getElem?_session, asked, Option.map_some, fst_pick lists]
    refine ⟨answer, fun unit picked => ?_, ?_⟩
    · rw [answer, Option.some_inj, find?_countFrom_eq_some_iff] at picked
      exact picked.2.1
    · rw [answer, Option.some_inj, List.find?_eq_none, lists.isEmpty_eq, List.isEmpty_iff]
      constructor
      · intro nobody
        refine List.eq_nil_iff_forall_not_mem.mpr fun unit member => ?_
        exact nobody unit (mem_countFrom.mpr (lists.lt_capacity member))
          ((lists.member unit).mpr member)
      · rintro rfl unit -
        simp [lists.contains_eq]
  · -- From any moment on, the placement is one whose cursor stands somewhere else.
    have picks : ((session Placement.pick p idles).1.drop moment).take n =
        (session Placement.pick (session Placement.pick p (idles.take moment)).2
          ((idles.drop moment).take n)).1 := by
      rw [drop_session, take_session]
    have built : ∀ idle ∈ (idles.drop moment).take n, idle.Built :=
      fun idle member => built idle (List.mem_of_mem_drop (List.mem_of_mem_take member))
    dsimp only
    rw [picks]
    refine ⟨fun unit waits absent => nodup_session built waits _ absent,
      fun unit waits some_units length => ?_, fun members distinct count length same => ?_⟩
    · exact mem_session built (fun idle member => (waits idle member).1)
        (fun idle member => (waits idle member).2) length.ge some_units _
    · exact perm_session built distinct (length.trans count.symm) same _

/-- Three units: the first pick is made among all of them, the second without unit 0, the third among
unit 2 and unit 0, which has become idle again. Unit 2 stays idle and is picked. -/
theorem picks_in_turn_of_three_units :
    let idles := [[], [.remove 0], [.remove 0, .remove 1, .push 0]].map fun calls =>
      (session UnitSet.perform (UnitSet.full 3) calls).2
    let answers := (session Placement.pick ({} : RoundRobin) idles).1
    (∀ idle ∈ idles, idle.Built) ∧ answers = [some 0, some 1, some 2] ∧
      some 2 ∈ (answers.drop 0).take 3 := by
  have built : ∀ idle ∈ [[], [.remove 0], [.remove 0, .remove 1, .push 0]].map fun calls =>
      (session UnitSet.perform (UnitSet.full 3) calls).2, idle.Built := by
    intro idle member
    obtain ⟨calls, -, rfl⟩ := List.mem_map.mp member
    exact ⟨.full, 3, calls, rfl⟩
  refine ⟨built, by decide, ?_⟩
  obtain ⟨-, fair⟩ := picks_in_turn {} _ built
  exact (fair 0 3).2.1 2 (by decide) (by decide) rfl

end RoundRobin

end Accelerator
