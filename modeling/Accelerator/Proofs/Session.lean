/-!
# Sessions

Something is asked one call after the other. It answers every call, and is from then on what the
call has made of it. A session collects the answers, and what there is in the end.

Two things of different make that answer every call alike, and stay related by it, cannot be told
apart by any session (`session_alike`).
-/

namespace Accelerator

variable {σ τ κ α : Type}

/-- The answers to calls made one after the other, and what there is after the last of them, where
`f` gives the answer to one call and what the call leads to. -/
def session (f : σ → κ → α × σ) (s : σ) : List κ → List α × σ
  | [] => ([], s)
  | call :: rest =>
    let (answer, next) := f s call
    let (answers, last) := session f next rest
    (answer :: answers, last)

variable {f : σ → κ → α × σ}

theorem session_cons (s : σ) (call : κ) (rest : List κ) :
    session f s (call :: rest) =
      ((f s call).1 :: (session f (f s call).2 rest).1, (session f (f s call).2 rest).2) := rfl

theorem session_append (s : σ) (first second : List κ) :
    session f s (first ++ second) =
      ((session f s first).1 ++ (session f (session f s first).2 second).1,
        (session f (session f s first).2 second).2) := by
  induction first generalizing s with
  | nil => rfl
  | cons call rest ih => rw [List.cons_append, session_cons, ih, session_cons, List.cons_append]

@[simp] theorem length_session (s : σ) (calls : List κ) :
    (session f s calls).1.length = calls.length := by
  induction calls generalizing s with
  | nil => rfl
  | cons call rest ih => rw [session_cons, List.length_cons, ih, List.length_cons]

/-- The first answers are those that a shorter session gives. -/
theorem take_session (s : σ) (calls : List κ) (n : Nat) :
    (session f s calls).1.take n = (session f s (calls.take n)).1 := by
  induction calls generalizing s n with
  | nil => simp [session]
  | cons call rest ih =>
      cases n with
      | zero => rfl
      | succ n => rw [List.take_succ_cons, session_cons, session_cons, List.take_succ_cons, ih]

/-- The other answers are those that what they have led to gives. -/
theorem drop_session (s : σ) (calls : List κ) (n : Nat) :
    (session f s calls).1.drop n =
      (session f (session f s (calls.take n)).2 (calls.drop n)).1 := by
  induction calls generalizing s n with
  | nil => simp [session]
  | cons call rest ih =>
      cases n with
      | zero => rfl
      | succ n =>
          rw [List.take_succ_cons, session_cons, session_cons, List.drop_succ_cons,
            List.drop_succ_cons, ih]

/-- Every call is answered by what the calls before it have led to. -/
theorem getElem?_session (s : σ) (calls : List κ) (i : Nat) :
    (session f s calls).1[i]? =
      calls[i]?.map fun call => (f (session f s (calls.take i)).2 call).1 := by
  induction calls generalizing s i with
  | nil => simp [session]
  | cons call rest ih =>
      cases i with
      | zero => rfl
      | succ i =>
          rw [session_cons, List.getElem?_cons_succ, List.getElem?_cons_succ, ih,
            List.take_succ_cons, session_cons]

/-- What every call keeps is kept by a session. -/
theorem session_kept {P : σ → Prop} {calls : List κ}
    (kept : ∀ s, ∀ call ∈ calls, P s → P (f s call).2) {s : σ} (holds : P s) :
    P (session f s calls).2 := by
  induction calls generalizing s with
  | nil => exact holds
  | cons call rest ih =>
      exact ih (fun s other later => kept s other (List.mem_cons_of_mem _ later))
        (kept s call (List.mem_cons_self ..) holds)

/-- If two things answer every call alike and stay related, they give the same answers throughout,
and are related in the end. -/
theorem session_alike {R : σ → τ → Prop} {g : τ → κ → α × τ}
    (alike : ∀ s t call, R s t → (f s call).1 = (g t call).1 ∧ R (f s call).2 (g t call).2)
    {s : σ} {t : τ} (related : R s t) (calls : List κ) :
    (session f s calls).1 = (session g t calls).1 ∧
      R (session f s calls).2 (session g t calls).2 := by
  induction calls generalizing s t with
  | nil => exact ⟨rfl, related⟩
  | cons call rest ih =>
      obtain ⟨answer, next⟩ := alike s t call related
      obtain ⟨answers, last⟩ := ih next
      rw [session_cons, session_cons, answer, answers]
      exact ⟨rfl, last⟩

end Accelerator
