import Mathlib.Data.List.Forall2

/-!
# Going through a list

What comes of a list of which every member is checked, or has a value of its own: all of them have to
pass, and the first that does not decides.
-/

namespace Accelerator

section Values

variable {α β ε : Type} {f : α → Except ε β} {e : ε}

theorem bind_eq_ok {first : Except ε α} {b : β} :
    (first >>= f) = .ok b ↔ ∃ a, first = .ok a ∧ f a = .ok b := by
  rcases first with e | a
  · exact ⟨nofun, nofun⟩
  · refine ⟨fun done => ⟨a, rfl, done⟩, ?_⟩
    rintro ⟨_, same, done⟩
    cases same
    exact done

theorem bind_eq_error {first : Except ε α} :
    (first >>= f) = .error e ↔ first = .error e ∨ ∃ a, first = .ok a ∧ f a = .error e := by
  rcases first with e' | a
  · refine ⟨fun failed => .inl (by cases failed; rfl), ?_⟩
    rintro (failed | ⟨_, same, -⟩)
    · cases failed
      rfl
    · cases same
  · refine ⟨fun failed => .inr ⟨a, rfl, failed⟩, ?_⟩
    rintro (failed | ⟨_, same, failed⟩)
    · cases failed
    · cases same
      exact failed

/-- A check of several things succeeds when each of them passes. -/
theorem forM_eq_ok {check : α → Except ε Unit} {l : List α} :
    l.forM check = .ok () ↔ ∀ a ∈ l, check a = .ok () := by
  induction l with
  | nil => simp [pure, Except.pure]
  | cons a l ih =>
    rw [List.forall_mem_cons, ← ih]
    change (check a >>= fun _ => l.forM check) = .ok () ↔ _
    rw [bind_eq_ok]
    exact ⟨fun ⟨_, here, rest⟩ => ⟨here, rest⟩, fun ⟨here, rest⟩ => ⟨(), here, rest⟩⟩

/-- A check of several things fails where one of them does not pass. -/
theorem forM_eq_error {check : α → Except ε Unit} {l : List α}
    (failed : l.forM check = .error e) : ∃ a ∈ l, check a = .error e := by
  induction l with
  | nil => cases failed
  | cons a l ih =>
    change (check a >>= fun _ => l.forM check) = .error e at failed
    rcases bind_eq_error.mp failed with here | ⟨_, -, later⟩
    · exact ⟨a, List.mem_cons_self, here⟩
    · obtain ⟨b, member, here⟩ := ih later
      exact ⟨b, List.mem_cons_of_mem a member, here⟩

/-- There is a list of values when there is a value at each member. -/
theorem mapM_eq_ok {l : List α} {values : List β} :
    l.mapM f = .ok values ↔ List.Forall₂ (fun a b => f a = .ok b) l values := by
  induction l generalizing values with
  | nil => cases values <;> simp [pure, Except.pure]
  | cons a l ih =>
    simp only [List.mapM_cons, bind_eq_ok, ih, List.forall₂_cons_left_iff]
    constructor
    · rintro ⟨b, here, bs, each, same⟩
      cases same
      exact ⟨b, bs, here, each, rfl⟩
    · rintro ⟨b, bs, here, each, rfl⟩
      exact ⟨b, here, bs, each, rfl⟩

/-- Without a list of values there is a first member without a value, and its error is the one of the
whole. -/
theorem mapM_eq_error {l : List α} : l.mapM f = .error e ↔
    ∃ before a after, l = before ++ a :: after ∧ (∀ b ∈ before, ∃ c, f b = .ok c) ∧
      f a = .error e := by
  induction l with
  | nil => simp [pure, Except.pure]
  | cons head l ih =>
    simp only [List.mapM_cons, bind_eq_error, ih]
    constructor
    · rintro (failed | ⟨value, here, ⟨before, a, after, rfl, valued, failed⟩ | ⟨_, -, failed⟩⟩)
      · exact ⟨[], head, l, rfl, List.forall_mem_nil _, failed⟩
      · exact ⟨head :: before, a, after, rfl, List.forall_mem_cons.mpr ⟨⟨value, here⟩, valued⟩, failed⟩
      · cases failed
    · rintro ⟨_ | ⟨b, before⟩, a, after, same, valued, failed⟩
      · obtain ⟨rfl, rfl⟩ := List.cons.inj same
        exact .inl failed
      · obtain ⟨rfl, rfl⟩ := List.cons.inj same
        obtain ⟨⟨value, here⟩, valued⟩ := List.forall_mem_cons.mp valued
        exact .inr ⟨value, here, .inl ⟨before, a, after, rfl, valued, failed⟩⟩

theorem exists_mapM_eq_ok {l : List α} :
    (∃ values, l.mapM f = .ok values) ↔ ∀ a ∈ l, ∃ b, f a = .ok b := by
  constructor
  · rintro ⟨values, done⟩
    rw [mapM_eq_ok] at done
    induction done with
    | nil => exact List.forall_mem_nil _
    | cons here _ ih => exact List.forall_mem_cons.mpr ⟨⟨_, here⟩, ih⟩
  · intro each
    rcases done : l.mapM f with e | values
    · obtain ⟨before, a, after, rfl, -, failed⟩ := mapM_eq_error.mp done
      obtain ⟨b, valued⟩ := each a (List.mem_append_right before List.mem_cons_self)
      rw [valued] at failed
      cases failed
    · exact ⟨values, rfl⟩

end Values

/-- A function that has a value at every member of a list has a list of values. -/
theorem mapM_eq_some {α β : Type} {f : α → Option β} {g : α → β} {l : List α}
    (valued : ∀ a ∈ l, f a = some (g a)) : l.mapM f = some (l.map g) := by
  induction l with
  | nil => rfl
  | cons a l ih =>
    rw [List.forall_mem_cons] at valued
    rw [List.mapM_cons, valued.1, ih valued.2]
    rfl

end Accelerator
