import Accelerator.Latch
import Accelerator.Proofs.Session
import Mathlib.Tactic.ByContra

/-!
# Latches as queues

A latch is a queue of two places: what is pushed into it is taken out of it again, in the same order
and nothing twice, and what has not been taken is still there (`left_append_held`). It is a queue
with a delay: between the push of a value and the take that gets it there is a commit
(`passes_in_order_with_delay`).

Calls may come in any order. A push is refused as long as a value is staged, a commit as long as the
committed value stays in the way of the staged one, and neither refusal has an effect.
-/

namespace Accelerator.Latch

variable {α : Type}

/-! ## Calls -/

inductive Call (α : Type) where
  | push (value : α)
  | take
  | commit
deriving DecidableEq

inductive Answer (α : Type) where
  /-- The value that was pushed is staged. -/
  | staged
  /-- The value that was pushed is given back. -/
  | refused (value : α)
  /-- What was committed, if anything was. -/
  | taken (value : Option α)
  /-- Is no staged value left? -/
  | committed (yes : Bool)
deriving DecidableEq

/-- Was there something in the way? -/
def Answer.isRefusal : Answer α → Bool
  | staged | taken _ => false
  | refused _ => true
  | committed yes => !yes

/-- What a latch answers to a call, and what the call makes of it. -/
def perform (l : Latch α) : Call α → Answer α × Latch α
  | .push value =>
    match l.push? value with
    | some next => (.staged, next)
    | none => (.refused value, l)
  | .take => (.taken l.take.1, l.take.2)
  | .commit =>
    match l.commit? with
    | some next => (.committed true, next)
    | none => (.committed false, l)

/-- The value that goes into the latch by a call with this answer. -/
def enters? : Call α × Answer α → Option α
  | (.push value, .staged) => some value
  | _ => none

/-- The value that an answer brings out of the latch. -/
def leaves? : Answer α → Option α
  | .taken value => value
  | _ => none

/-- The values that go into the latch in a session, in order. -/
def entered (l : Latch α) (calls : List (Call α)) : List α :=
  (calls.zip (session perform l calls).1).filterMap enters?

/-- The values that come out of the latch in a session, in order. -/
def left (l : Latch α) (calls : List (Call α)) : List α :=
  (session perform l calls).1.filterMap leaves?

/-- The values in the latch, the one that comes out first at the head. -/
def held (l : Latch α) : List α := l.current.toList ++ l.next.toList

variable {l : Latch α} {value : α}

/-! ## What one call does -/

theorem fst_perform_push (l : Latch α) (value : α) :
    (l.perform (.push value)).1 = if l.next.isSome then .refused value else .staged := by
  rcases l with ⟨current, _ | staged⟩ <;> rfl

theorem fst_perform_commit (l : Latch α) :
    (l.perform .commit).1 = .committed !(l.current.isSome && l.next.isSome) := by
  rcases l with ⟨_ | committed, _ | staged⟩ <;> rfl

/-- A call that is refused changes nothing. -/
theorem perform_of_isRefusal {call : Call α} (refused : (l.perform call).1.isRefusal = true) :
    (l.perform call).2 = l := by
  cases call with
  | push value =>
      rcases l with ⟨current, _ | staged⟩
      · cases refused
      · rfl
  | take => cases refused
  | commit =>
      rcases l with ⟨_ | committed, _ | staged⟩
      · cases refused
      · cases refused
      · cases refused
      · rfl

/-- A value is staged only where there was none. -/
theorem perform_of_staged (staged : (l.perform (.push value)).1 = .staged) :
    (l.perform (.push value)).2 = { l with next := some value } := by
  rcases l with ⟨current, _ | other⟩
  · rfl
  · cases staged

/-- Only a take brings out a value, which is the committed one. -/
theorem current_of_taken {call : Call α} (taken : (l.perform call).1 = .taken (some value)) :
    l.current = some value := by
  cases call with
  | push other => rcases l with ⟨current, _ | staged⟩ <;> cases taken
  | take => exact (Answer.taken.inj taken :)
  | commit => rcases l with ⟨_ | committed, _ | staged⟩ <;> cases taken

/-- Only a commit is answered as one. -/
theorem eq_commit_of_committed {call : Call α} {yes : Bool}
    (committed : (l.perform call).1 = .committed yes) : call = .commit := by
  cases call with
  | push value => rcases l with ⟨current, _ | staged⟩ <;> cases committed
  | take => cases committed
  | commit => rfl

/-- What is in the latch and what goes in is what comes out and what is in the latch then. -/
theorem held_perform (l : Latch α) (call : Call α) :
    l.held ++ (enters? (call, (l.perform call).1)).toList =
      (leaves? (l.perform call).1).toList ++ (l.perform call).2.held := by
  cases call with
  | push value => rcases l with ⟨_ | committed, _ | staged⟩ <;> rfl
  | take => rcases l with ⟨_ | committed, _ | staged⟩ <;> rfl
  | commit => rcases l with ⟨_ | committed, _ | staged⟩ <;> rfl

/-- A staged value stays staged until a commit, and keeps others out. -/
theorem next_perform {call : Call α} (staged : l.next = some value)
    (uncommitted : (l.perform call).1 ≠ .committed true) :
    (l.perform call).2.next = some value ∧ enters? (call, (l.perform call).1) = none := by
  obtain ⟨current, next⟩ := l
  obtain rfl : next = some value := staged
  cases call with
  | push other => exact ⟨rfl, rfl⟩
  | take => exact ⟨rfl, rfl⟩
  | commit =>
      cases current with
      | none => exact absurd rfl uncommitted
      | some committed => exact ⟨rfl, rfl⟩

/-! ## Sessions -/

theorem entered_cons (l : Latch α) (call : Call α) (rest : List (Call α)) :
    l.entered (call :: rest) =
      (enters? (call, (l.perform call).1)).toList ++ (l.perform call).2.entered rest := by
  rw [entered, session_cons, List.zip_cons_cons, List.filterMap_cons]
  cases enters? (call, (l.perform call).1) <;> rfl

theorem left_cons (l : Latch α) (call : Call α) (rest : List (Call α)) :
    l.left (call :: rest) =
      (leaves? (l.perform call).1).toList ++ (l.perform call).2.left rest := by
  rw [left, session_cons, List.filterMap_cons]
  cases leaves? (l.perform call).1 <;> rfl

theorem entered_append (l : Latch α) (first second : List (Call α)) :
    l.entered (first ++ second) =
      l.entered first ++ (session perform l first).2.entered second := by
  induction first generalizing l with
  | nil => rfl
  | cons call rest ih =>
      rw [List.cons_append, entered_cons, ih, entered_cons, session_cons, List.append_assoc]

/-- Nothing is lost, nothing comes out twice and nothing overtakes. -/
theorem left_append_held (l : Latch α) (calls : List (Call α)) :
    l.left calls ++ (session perform l calls).2.held = l.held ++ l.entered calls := by
  induction calls generalizing l with
  | nil => exact (List.append_nil _).symm
  | cons call rest ih =>
      rw [left_cons, session_cons, List.append_assoc, ih, ← List.append_assoc, ← held_perform,
        List.append_assoc, entered_cons]

/-- As long as nothing is committed a staged value stays staged, and no other goes in. -/
theorem next_session {calls : List (Call α)} (staged : l.next = some value)
    (uncommitted : .committed true ∉ (session perform l calls).1) :
    (session perform l calls).2.next = some value ∧ l.entered calls = [] := by
  induction calls generalizing l with
  | nil => exact ⟨staged, rfl⟩
  | cons call rest ih =>
      rw [session_cons, List.mem_cons, not_or] at uncommitted
      obtain ⟨stays, alone⟩ := next_perform staged (Ne.symm uncommitted.1)
      obtain ⟨last, others⟩ := ih stays uncommitted.2
      rw [entered_cons, alone, others]
      exact ⟨last, rfl⟩

/-- What has gone in after some calls has gone in first. -/
theorem prefix_entered_take (l : Latch α) (calls : List (Call α)) {m n : Nat} (le : m ≤ n) :
    l.entered (calls.take m) <+: l.entered (calls.take n) := by
  have parts := List.take_append_drop m (calls.take n)
  rw [List.take_take, Nat.min_eq_left le] at parts
  rw [← parts, entered_append]
  exact List.prefix_append ..

/-- A push that is not refused puts its value behind all others. -/
theorem entered_take_succ {calls : List (Call α)} {i : Nat}
    (pushed : calls[i]? = some (.push value))
    (staged : (session perform l calls).1[i]? = some .staged) :
    l.entered (calls.take (i + 1)) = l.entered (calls.take i) ++ [value] ∧
      (session perform l (calls.take (i + 1))).2.next = some value := by
  rw [getElem?_session, pushed, Option.map_some, Option.some.injEq] at staged
  rw [List.take_add_one, pushed, Option.toList_some, entered_append, session_append, entered_cons,
    session_cons, staged, perform_of_staged staged]
  exact ⟨rfl, rfl⟩

/-- And as long as nothing is committed after that, it stays the last one. -/
theorem entered_take_of_uncommitted {calls : List (Call α)} {i j : Nat} (later : i < j)
    (pushed : calls[i]? = some (.push value))
    (staged : (session perform l calls).1[i]? = some .staged)
    (uncommitted : ∀ k, i < k → k < j → (session perform l calls).1[k]? ≠ some (.committed true)) :
    l.entered (calls.take j) = l.entered (calls.take i) ++ [value] ∧
      (session perform l (calls.take j)).2.next = some value := by
  obtain ⟨behind, next⟩ := entered_take_succ pushed staged
  have parts := List.take_append_drop (i + 1) (calls.take j)
  rw [List.take_take, Nat.min_eq_left later] at parts
  have between := drop_session (f := perform) l (calls.take j) (i + 1)
  rw [List.take_take, Nat.min_eq_left later, ← take_session] at between
  have absent : .committed true ∉ (session perform (session perform l (calls.take (i + 1))).2
      ((calls.take j).drop (i + 1))).1 := by
    rw [← between, List.mem_iff_getElem?]
    intro member
    obtain ⟨n, found⟩ := member
    rw [List.getElem?_drop, List.getElem?_take, Option.ite_none_right_eq_some] at found
    exact uncommitted (i + 1 + n) (by omega) found.1 found.2
  obtain ⟨stays, alone⟩ := next_session next absent
  rw [← parts, entered_append, behind, alone, session_append, List.append_nil]
  exact ⟨rfl, stays⟩

/-! ## Order and delay -/

section Passage

variable {calls : List (Call α)} {i j : Nat} {out : α}
  (pushed : calls[i]? = some (.push value))
  (staged : (session perform empty calls).1[i]? = some .staged)
  (taken : (session perform empty calls).1[j]? = some (.taken (some out)))
  (number : ((empty : Latch α).entered (calls.take i)).length =
    ((empty : Latch α).left (calls.take j)).length)

include taken in
/-- A value that comes out stands right behind those that have come out before. -/
theorem entered_take_of_taken :
    (empty : Latch α).entered (calls.take j) = (empty : Latch α).left (calls.take j) ++
      out :: (session perform empty (calls.take j)).2.next.toList := by
  rw [getElem?_session, Option.map_eq_some_iff] at taken
  obtain ⟨call, -, taken⟩ := taken
  have whole := left_append_held (empty : Latch α) (calls.take j)
  rw [held, current_of_taken taken] at whole
  exact whole.symm

include taken number in
/-- No value comes out before as many have gone in. -/
theorem lt_of_taken : i < j := by
  by_contra earlier
  have shorter := (prefix_entered_take (empty : Latch α) calls (Nat.le_of_not_lt earlier)).length_le
  rw [entered_take_of_taken taken, number, List.length_append, List.length_cons] at shorter
  omega

include pushed staged taken number

/-- The value that comes out is the one that went in under the same number. -/
theorem eq_of_taken : out = value := by
  obtain ⟨more, same⟩ :=
    prefix_entered_take (empty : Latch α) calls (lt_of_taken taken number : i + 1 ≤ j)
  rw [(entered_take_succ pushed staged).1, entered_take_of_taken taken, List.append_assoc] at same
  exact (List.cons.inj (List.append_inj same number).2).1.symm

/-- Between the two a value was committed. -/
theorem exists_commit_of_taken :
    ∃ k, i < k ∧ k < j ∧ (session perform empty calls).1[k]? = some (.committed true) := by
  have later := lt_of_taken taken number
  by_contra! uncommitted
  obtain ⟨last, next⟩ := entered_take_of_uncommitted later pushed staged uncommitted
  -- the value would be in both places at once
  rw [entered_take_of_taken taken, next] at last
  have lengths := congrArg List.length last
  rw [List.length_append, List.length_append, number] at lengths
  simp at lengths

end Passage

/-- Whatever calls are made to a new latch: what has come out of it, followed by what is in it, is
what has gone in. The value that comes out as number `n` is the one that went in as number `n`, and
there was a commit between. A push is refused, and its value given back, exactly when a value is
staged, and a commit exactly when both places are taken; a refused call changes nothing. -/
theorem passes_in_order_with_delay (calls : List (Call α)) :
    let (answers, l) := session perform (empty : Latch α) calls
    (empty : Latch α).left calls ++ l.held = (empty : Latch α).entered calls ∧
      (∀ (i j : Nat) (value out : α), calls[i]? = some (.push value) →
        answers[i]? = some .staged → answers[j]? = some (.taken (some out)) →
        ((empty : Latch α).entered (calls.take i)).length =
          ((empty : Latch α).left (calls.take j)).length →
        out = value ∧ ∃ k, i < k ∧ k < j ∧ calls[k]? = some .commit ∧
          answers[k]? = some (.committed true)) ∧
      (∀ value, (l.perform (.push value)).1 =
        if l.next.isSome then .refused value else .staged) ∧
      (l.perform .commit).1 = .committed !(l.current.isSome && l.next.isSome) ∧
      ∀ call, (l.perform call).1.isRefusal = true → (l.perform call).2 = l := by
  refine ⟨left_append_held empty calls, fun i j value out pushed staged taken number => ?_,
    fst_perform_push _, fst_perform_commit _, fun _ => perform_of_isRefusal⟩
  obtain ⟨k, after, before, committed⟩ := exists_commit_of_taken pushed staged taken number
  have answered := committed
  rw [getElem?_session, Option.map_eq_some_iff] at answered
  obtain ⟨call, made, answered⟩ := answered
  obtain rfl := eq_commit_of_committed answered
  exact ⟨eq_of_taken pushed staged taken number, k, after, before, made, committed⟩

/-- Of two values the second is refused at first, and is then in the way of a commit until the first
is taken. -/
theorem passes_in_order_with_delay_of_two_values :
    let calls : List (Call Nat) :=
      [.push 1, .push 2, .commit, .push 2, .commit, .take, .commit, .take]
    let (answers, l) := session perform (empty : Latch Nat) calls
    answers = [.staged, .refused 2, .committed true, .staged, .committed false, .taken (some 1),
        .committed true, .taken (some 2)] ∧
      (empty : Latch Nat).left calls ++ l.held = (empty : Latch Nat).entered calls ∧
      ∃ k, 3 < k ∧ k < 7 ∧ calls[k]? = some .commit ∧ answers[k]? = some (.committed true) := by
  intro calls
  obtain ⟨whole, between, -⟩ := passes_in_order_with_delay calls
  exact ⟨rfl, whole, (between 3 7 2 2 rfl rfl rfl rfl).2⟩

end Accelerator.Latch
