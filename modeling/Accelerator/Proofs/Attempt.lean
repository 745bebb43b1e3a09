import Accelerator.Error

/-!
# Outcomes of attempts

How the outcome of an attempt is put together from those of its parts, and two ways to speak about
all outcomes at once: an attempt *keeps* a property of states if the state it leaves has the
property whether it was refused or not, and it *matches* another attempt if related states lead to
the same answer and to related states again.
-/

namespace Accelerator.Attempt

variable {σ τ α β : Type}

/-! ## The parts of an attempt -/

@[simp] theorem outcome_pure (a : α) (s : σ) : (pure a : Attempt σ α).outcome s = (.ok a, s) := rfl

@[simp] theorem outcome_throw (e : Error) (s : σ) :
    (throw e : Attempt σ α).outcome s = (.error e, s) := rfl

@[simp] theorem outcome_get (s : σ) : (get : Attempt σ σ).outcome s = (.ok s, s) := rfl

@[simp] theorem outcome_modify (change : σ → σ) (s : σ) :
    (modify change : Attempt σ Unit).outcome s = (.ok (), change s) := rfl

@[simp] theorem outcome_get_bind (next : σ → Attempt σ α) (s : σ) :
    (get >>= next).outcome s = (next s).outcome s := rfl

@[simp] theorem outcome_ite (p : Prop) [Decidable p] (first second : Attempt σ α) (s : σ) :
    (if p then first else second).outcome s =
      if p then first.outcome s else second.outcome s := by
  split <;> rfl

theorem ext {first second : Attempt σ α} (same : ∀ s, first.outcome s = second.outcome s) :
    first = second := funext same

/-- What comes second happens only if what comes first is not refused. -/
theorem outcome_bind (first : Attempt σ α) (second : α → Attempt σ β) (s : σ) :
    (first >>= second).outcome s =
      match first.outcome s with
      | (.ok a, t) => (second a).outcome t
      | (.error e, t) => (.error e, t) := by
  show (ExceptT.bindCont second (first.outcome s).1) (first.outcome s).2 = _
  rcases first.outcome s with ⟨answer, t⟩
  cases answer <;> rfl

theorem outcome_map (f : α → β) (attempt : Attempt σ α) (s : σ) :
    (f <$> attempt).outcome s =
      match attempt.outcome s with
      | (.ok a, t) => (.ok (f a), t)
      | (.error e, t) => (.error e, t) := by
  rw [map_eq_pure_bind, outcome_bind]
  rfl

theorem outcome_bind_of_ok {first : Attempt σ α} {second : α → Attempt σ β} {s t : σ} {a : α}
    (done : first.outcome s = (.ok a, t)) : (first >>= second).outcome s = (second a).outcome t := by
  rw [outcome_bind, done]

theorem outcome_bind_of_error {first : Attempt σ α} {second : α → Attempt σ β} {s t : σ} {e : Error}
    (refused : first.outcome s = (.error e, t)) : (first >>= second).outcome s = (.error e, t) := by
  rw [outcome_bind, refused]

/-- After a refusal nothing is asked any more. -/
theorem answer_bind_of_error {first : Attempt σ α} {second : α → Attempt σ β} {s : σ} {e : Error}
    (refused : (first.outcome s).1 = .error e) : ((first >>= second).outcome s).1 = .error e := by
  rw [outcome_bind_of_error (Prod.ext refused rfl)]

/-- What holds whenever there is a result holds of one, if there is one. -/
theorem exists_of_isOk {done : Except Error α × σ} (ok : done.1.isOk = true) {P : α → σ → Prop}
    (each : ∀ a s, done = (.ok a, s) → P a s) : ∃ a s, done = (.ok a, s) ∧ P a s := by
  obtain ⟨e | a, s⟩ := done
  · cases ok
  · exact ⟨a, s, rfl, each a s rfl⟩

@[simp] theorem outcome_ofExcept (result : Except Error α) (s : σ) :
    (ofExcept result : Attempt σ α).outcome s = (result, s) := by
  cases result <;> rfl

/-! ## Properties that are kept -/

/-- Whatever the answer, a state with the property leads to one with the property. -/
def Keeps (P : σ → Prop) (attempt : Attempt σ α) : Prop := ∀ s, P s → P (attempt.outcome s).2

variable {P : σ → Prop}

theorem keeps_pure (a : α) : Keeps P (pure a : Attempt σ α) := fun _ holds => holds

theorem keeps_throw (e : Error) : Keeps P (throw e : Attempt σ α) := fun _ holds => holds

theorem keeps_get : Keeps P (get : Attempt σ σ) := fun _ holds => holds

theorem keeps_modify {change : σ → σ} (kept : ∀ s, P s → P (change s)) :
    Keeps P (modify change : Attempt σ Unit) := kept

theorem keeps_ofExcept (result : Except Error α) : Keeps P (ofExcept result : Attempt σ α) := by
  intro s holds
  rwa [outcome_ofExcept]

theorem Keeps.and {Q : σ → Prop} {attempt : Attempt σ α} (first : Keeps P attempt)
    (second : Keeps Q attempt) : Keeps (fun s => P s ∧ Q s) attempt :=
  fun s holds => ⟨first s holds.1, second s holds.2⟩

theorem Keeps.ite {p : Prop} [Decidable p] {first second : Attempt σ α} (left : Keeps P first)
    (right : Keeps P second) : Keeps P (if p then first else second) := by
  split
  · exact left
  · exact right

theorem Keeps.bind {first : Attempt σ α} {second : α → Attempt σ β}
    (before : Keeps P first) (after : ∀ a, Keeps P (second a)) : Keeps P (first >>= second) := by
  intro s holds
  have between := before s holds
  rw [outcome_bind]
  rcases done : first.outcome s with ⟨answer, t⟩
  rw [done] at between
  cases answer with
  | error e => exact between
  | ok a => exact after a t between

theorem Keeps.forM {visit : α → Attempt σ Unit} (each : ∀ a, Keeps P (visit a))
    (l : List α) : Keeps P (l.forM visit) := by
  induction l with
  | nil => exact keeps_pure ()
  | cons a rest ih => exact (each a).bind fun _ => ih

/-- Whenever there is an answer, the state that is left has the property. -/
def Ensures (P : σ → Prop) (attempt : Attempt σ α) : Prop :=
  ∀ s a t, attempt.outcome s = (.ok a, t) → P t

theorem ensures_throw (e : Error) : Ensures P (throw e : Attempt σ α) := by
  intro s a t done
  cases done

theorem Ensures.bind {first : Attempt σ α} {second : α → Attempt σ β}
    (after : ∀ a, Ensures P (second a)) : Ensures P (first >>= second) := by
  intro s b t done
  rw [outcome_bind] at done
  rcases between : first.outcome s with ⟨e | a, u⟩
  · rw [between] at done
    cases done
  · rw [between] at done
    exact after a u b t done

theorem Ensures.ite {p : Prop} [Decidable p] {first second : Attempt σ α}
    (left : Ensures P first) (right : Ensures P second) :
    Ensures P (if p then first else second) := by
  split
  · exact left
  · exact right

/-! ## Attempts that match -/

/-- The same error, or results that are related. -/
inductive Agree (Q : α → β → Prop) : Except Error α → Except Error β → Prop
  | ok {a : α} {b : β} (related : Q a b) : Agree Q (.ok a) (.ok b)
  | error (e : Error) : Agree Q (.error e) (.error e)

theorem Agree.eq {left right : Except Error α} (agree : Agree Eq left right) : left = right := by
  cases agree with
  | ok same => rw [same]
  | error e => rfl

theorem agree_eq (result : Except Error α) : Agree Eq result result := by
  cases result with
  | ok a => exact .ok rfl
  | error e => exact .error e

/-- From related states both attempts lead to answers that agree, and to related states. -/
def Matches (R : σ → τ → Prop) (Q : α → β → Prop) (left : Attempt σ α) (right : Attempt τ β) :
    Prop :=
  ∀ s t, R s t → Agree Q (left.outcome s).1 (right.outcome t).1 ∧
    R (left.outcome s).2 (right.outcome t).2

variable {γ δ : Type} {R : σ → τ → Prop} {Q : α → β → Prop} {Q' : γ → δ → Prop}

theorem matches_pure {a : α} {b : β} (related : Q a b) :
    Matches R Q (pure a : Attempt σ α) (pure b : Attempt τ β) := fun _ _ here => ⟨.ok related, here⟩

theorem matches_throw (e : Error) :
    Matches R Q (throw e : Attempt σ α) (throw e : Attempt τ β) :=
  fun _ _ here => ⟨.error e, here⟩

theorem matches_ofExcept {left : Except Error α} {right : Except Error β}
    (agree : Agree Q left right) :
    Matches R Q (ofExcept left : Attempt σ α) (ofExcept right : Attempt τ β) := by
  cases agree with
  | ok related => exact matches_pure related
  | error e => exact matches_throw e

theorem matches_modify {left : σ → σ} {right : τ → τ}
    (related : ∀ s t, R s t → R (left s) (right t)) :
    Matches R Eq (modify left : Attempt σ Unit) (modify right : Attempt τ Unit) :=
  fun s t here => ⟨.ok rfl, related s t here⟩

theorem Matches.bind {left : Attempt σ α} {right : Attempt τ β} {left' : α → Attempt σ γ}
    {right' : β → Attempt τ δ} (first : Matches R Q left right)
    (second : ∀ a b, Q a b → Matches R Q' (left' a) (right' b)) :
    Matches R Q' (left >>= left') (right >>= right') := by
  intro s t related
  obtain ⟨agree, between⟩ := first s t related
  rw [outcome_bind, outcome_bind]
  rcases done : left.outcome s with ⟨a, s'⟩
  rcases done' : right.outcome t with ⟨b, t'⟩
  rw [done, done'] at agree between
  cases agree with
  | ok here => exact second _ _ here s' t' between
  | error e => exact ⟨.error e, between⟩

/-- Attempts in sequence, the first of which has no result. -/
theorem Matches.andThen {left : Attempt σ Unit} {right : Attempt τ Unit} {left' : Unit → Attempt σ γ}
    {right' : Unit → Attempt τ δ} (first : Matches R Eq left right)
    (second : Matches R Q' (left' ()) (right' ())) :
    Matches R Q' (left >>= left') (right >>= right') :=
  first.bind fun _ _ _ => second

/-- What comes next may depend on the state, as far as related states agree on it. -/
theorem matches_get {left : σ → Attempt σ α} {right : τ → Attempt τ β}
    (look : ∀ s t, R s t → Matches R Q (left s) (right t)) :
    Matches R Q (get >>= left) (get >>= right) :=
  fun s t related => look s t related s t related

theorem Matches.ite {p q : Prop} [Decidable p] [Decidable q] {first second : Attempt σ α}
    {first' second' : Attempt τ β} (same : p ↔ q) (left : Matches R Q first first')
    (right : Matches R Q second second') :
    Matches R Q (if p then first else second) (if q then first' else second') := by
  by_cases holds : p
  · rwa [if_pos holds, if_pos (same.mp holds)]
  · rwa [if_neg holds, if_neg fun other => holds (same.mpr other)]

theorem Matches.forM {left : α → Attempt σ Unit} {right : α → Attempt τ Unit}
    (each : ∀ a, Matches R Eq (left a) (right a)) (l : List α) :
    Matches R Eq (l.forM left) (l.forM right) := by
  induction l with
  | nil => exact matches_pure rfl
  | cons a rest ih => exact (each a).andThen ih

end Accelerator.Attempt
