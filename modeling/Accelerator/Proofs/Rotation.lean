import Mathlib.Data.List.Nodup
import Mathlib.Data.List.Range
import Mathlib.Data.List.Perm.Subperm

/-!
# Turns

Something goes round: it counts upward from where it stands to a bound, and then from zero on, and
takes the first number that is fit. From there on it goes round again, starting with the next one.

A number that stays fit is passed over at most once by every other one before its turn comes
(`Passes.nodup`), whichever others are fit meanwhile.
-/

namespace Accelerator

/-! ## Counting round -/

/-- The numbers below `n`, counted upward from `start` on and then from zero on. -/
def countFrom (start n : Nat) : List Nat := List.range' start (n - start) ++ List.range (min start n)

/-- Whoever counts round from `start` on meets `a` before `b`. -/
def Before (start a b : Nat) : Prop :=
  start ≤ a ∧ b < start ∨ a < b ∧ (start ≤ a ∨ b < start)

theorem mem_countFrom {start n v : Nat} : v ∈ countFrom start n ↔ v < n := by
  simp only [countFrom, List.mem_append, List.mem_range'_1, List.mem_range]
  omega

/-- To count round is to count upward and take the remainder each time. -/
theorem countFrom_eq_map_mod {start n : Nat} (inside : start < n) :
    countFrom start n = (List.range' start n).map (· % n) := by
  have length : (countFrom start n).length = n := by
    rw [countFrom, List.length_append, List.length_range', List.length_range]
    omega
  refine List.ext_getElem (by simp [length]) fun i here there => ?_
  rw [length] at here
  simp only [countFrom, List.getElem_append, List.length_range', List.getElem_map,
    List.getElem_range', List.getElem_range, Nat.one_mul]
  split
  next early => rw [Nat.mod_eq_of_lt (by omega)]
  next late =>
    rw [Nat.mod_eq_sub_mod (by omega), Nat.mod_eq_of_lt (by omega)]
    omega

theorem pairwise_countFrom (start n : Nat) : (countFrom start n).Pairwise (Before start) := by
  refine List.pairwise_append.mpr ⟨?_, ?_, fun a late b early => ?_⟩
  · refine (List.pairwise_lt_range').imp_of_mem fun {a b} here _ less => ?_
    exact Or.inr ⟨less, Or.inl (List.mem_range'_1.mp here).1⟩
  · refine (List.pairwise_lt_range).imp_of_mem fun {a b} _ here less => ?_
    have below := List.mem_range.mp here
    exact Or.inr ⟨less, Or.inr (by omega)⟩
  · have above := (List.mem_range'_1.mp late).1
    have below := List.mem_range.mp early
    exact Or.inl ⟨above, by omega⟩

/-- The first fit number is met before all others that are fit. -/
theorem find?_countFrom_eq_some_iff {fit : Nat → Bool} {start n v : Nat} :
    (countFrom start n).find? fit = some v ↔
      v < n ∧ fit v = true ∧ ∀ w < n, fit w = true → w ≠ v → Before start v w := by
  have first : ∀ {v : Nat}, (countFrom start n).find? fit = some v →
      v < n ∧ fit v = true ∧ ∀ w < n, fit w = true → w ≠ v → Before start v w := by
    intro v found
    obtain ⟨fits, before, after, split, unfit⟩ := List.find?_eq_some_iff_append.mp found
    have ordered := pairwise_countFrom start n
    rw [split, List.pairwise_append, List.pairwise_cons] at ordered
    refine ⟨mem_countFrom.mp (List.mem_of_find?_eq_some found), fits, fun w below fitting other => ?_⟩
    have member : w ∈ before ++ v :: after := split ▸ mem_countFrom.mpr below
    rcases List.mem_append.mp member with early | late
    · have unfit := unfit w early
      simp [fitting] at unfit
    · rcases List.mem_cons.mp late with same | late
      · exact absurd same other
      · exact ordered.2.1.1 w late
  refine ⟨first, fun ⟨below, fits, least⟩ => ?_⟩
  rcases found : (countFrom start n).find? fit with _ | u
  · exact absurd fits (List.find?_eq_none.mp found v (mem_countFrom.mpr below))
  · obtain ⟨inside, fitting, least'⟩ := first found
    by_contra apart
    have differs : v ≠ u := fun same => apart (congrArg some same.symm)
    have forth := least u inside fitting (Ne.symm differs)
    have back := least' v below fits differs
    unfold Before at forth back
    omega

/-- Past the last number it makes no difference whether to count on or to begin again. -/
theorem before_iff_of_lt {n a b : Nat} (insideA : a < n) (insideB : b < n) :
    Before n a b ↔ Before 0 a b := by
  unfold Before
  omega

/-! ## Being passed over -/

/-- Numbers are taken one after the other, each before it would be the turn of `target`, and each
one is counted from one past the number before. -/
inductive Passes (target : Nat) : (start : Nat) → List Nat → Prop where
  | nil {start : Nat} : Passes target start []
  | cons {start v : Nat} {vs : List Nat} (first : Before start v target)
      (rest : Passes target (v + 1) vs) : Passes target start (v :: vs)

namespace Passes

variable {target start n : Nat} {vs : List Nat}

/-- Those who pass somebody over do so in their order. -/
theorem pairwise (passes : Passes target start vs) :
    vs.Pairwise (Before start) ∧ ∀ v ∈ vs, Before start v target := by
  induction passes with
  | nil => exact ⟨.nil, nofun⟩
  | @cons start v vs first rest ih =>
      obtain ⟨ordered, before⟩ := ih
      -- Between `v` and `target` it makes no difference where the counting began.
      have later : ∀ u ∈ vs, Before start v u ∧ Before start u target := by
        intro u member
        have next := before u member
        unfold Before at first next ⊢
        omega
      refine ⟨List.pairwise_cons.mpr ⟨fun u member => (later u member).1, ?_⟩, ?_⟩
      · refine ordered.imp_of_mem fun {u w} here there next => ?_
        have near := before u here
        have far := before w there
        unfold Before at first near far next ⊢
        omega
      · intro u member
        rcases List.mem_cons.mp member with rfl | member
        · exact first
        · exact (later u member).2

theorem notMem (passes : Passes target start vs) : target ∉ vs := by
  intro member
  have self := passes.pairwise.2 target member
  unfold Before at self
  omega

/-- Nobody passes somebody over twice. -/
theorem nodup (passes : Passes target start vs) : vs.Nodup := by
  refine passes.pairwise.1.imp fun {a b} before same => ?_
  unfold Before at before
  omega

/-- Somebody is passed over by no more than all the others. -/
theorem length_lt (passes : Passes target start vs) (inside : target < n)
    (below : ∀ v ∈ vs, v < n) : vs.length < n := by
  have distinct : (target :: vs).Nodup := List.nodup_cons.mpr ⟨passes.notMem, passes.nodup⟩
  have sub : target :: vs ⊆ List.range n := by
    intro v member
    rcases List.mem_cons.mp member with rfl | member
    · exact List.mem_range.mpr inside
    · exact List.mem_range.mpr (below v member)
  have shorter := (List.subperm_of_subset distinct sub).length_le
  rwa [List.length_range] at shorter

/-- Among the first `n` that are taken is one whose turn would come. -/
theorem mem_take {vs : List Nat} (passes : Passes target start (vs.takeWhile (· ≠ target)))
    (inside : target < n) (below : ∀ v ∈ vs.takeWhile (· ≠ target), v < n) (enough : n ≤ vs.length) :
    target ∈ vs.take n := by
  by_contra absent
  have others : ∀ v ∈ vs.take n, decide (v ≠ target) = true :=
    fun v member => decide_eq_true fun same => absent (same ▸ member)
  have shorter := passes.length_lt inside below
  rw [← vs.take_append_drop n, List.takeWhile_append_of_pos others, List.length_append,
    List.length_take_of_le enough] at shorter
  omega

/-- One past the last number is where the counting begins again. -/
theorem wrap {v : Nat} (passes : Passes target ((v + 1) % n) vs) (last : v < n) (inside : target < n)
    (below : ∀ v ∈ vs, v < n) : Passes target (v + 1) vs := by
  rcases Nat.lt_or_ge (v + 1) n with more | none
  · rwa [Nat.mod_eq_of_lt more] at passes
  · have ends : v + 1 = n := by omega
    rw [ends, Nat.mod_self] at passes
    rw [ends]
    cases passes with
    | nil => exact .nil
    | cons first rest =>
        exact .cons ((before_iff_of_lt (below _ (List.mem_cons_self ..)) inside).mpr first) rest

end Passes

/-! ## All of them in turn -/

/-- As many numbers are taken as there are members. If none is taken twice as long as some member has
not been taken at all, every member is taken once. -/
theorem perm_of_fair {members vs : List Nat} (distinct : members.Nodup)
    (length : vs.length = members.length) (inside : ∀ v ∈ vs, v ∈ members)
    (fair : ∀ k, ∀ m ∈ members, m ∉ vs.take k → (vs.take k).Nodup) : vs.Perm members := by
  have nodup : ∀ k ≤ vs.length, (vs.take k).Nodup := by
    intro k
    induction k with
    | zero => exact fun _ => List.nodup_nil
    | succ k ih =>
        intro bound
        have before := ih (Nat.le_of_succ_le bound)
        have taken : vs.take (k + 1) = vs.take k ++ [vs[k]] := List.take_succ_eq_append_getElem bound
        by_cases again : vs[k] ∈ vs.take k
        · -- Fewer have been taken than there are members, so somebody has not had his turn.
          obtain ⟨m, member, absent⟩ : ∃ m ∈ members, m ∉ vs.take k := by
            by_contra! all
            have longer := (List.subperm_of_subset distinct all).length_le
            rw [List.length_take] at longer
            omega
          have differs : m ≠ vs[k] := fun same => absent (same ▸ again)
          refine fair (k + 1) m member ?_
          rw [taken, List.mem_append, List.mem_singleton]
          exact not_or.mpr ⟨absent, differs⟩
        · rw [taken]
          exact List.nodup_append.mpr ⟨before, List.nodup_singleton _, by
            rintro a early b last rfl
            exact again (List.mem_singleton.mp last ▸ early)⟩
  have whole := nodup vs.length (Nat.le_refl _)
  rw [List.take_length] at whole
  exact (List.subperm_of_subset whole inside).perm_of_length_le length.ge

end Accelerator
