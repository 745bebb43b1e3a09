import Accelerator.Document.Scan

/-!
# What scanners read

`Scan.Reads p cs a rest` says that the scanner `p` reads `a` off the front of the characters `cs` and
leaves `rest`, and `Scan.Fails p cs` that it reads nothing. There is a rule for each way of putting
scanners together, so that what a scanner reads is found out by going along with its definition.
-/

namespace Accelerator.Scan

variable {α β : Type}

def Reads (p : Scan α) (cs : List Char) (a : α) (rest : List Char) : Prop :=
  p.run (.ofList cs) = some (a, .ofList rest)

def Fails (p : Scan α) (cs : List Char) : Prop := p.run (.ofList cs) = none

variable {p q : Scan α} {f : α → Scan β} {cs mid rest : List Char} {a : α} {b : β} {c : Char}
  {kind : Char → Bool}

/-- What is left of a text is known by its characters. -/
theorem eq_ofList {r : Rest} (same : r.chars = cs) : r = .ofList cs := by
  obtain ⟨chars, size, rfl⟩ := r
  subst same
  rfl

/-! ## One after the other, and one or the other -/

theorem Reads.pure (a : α) (cs : List Char) : Reads (pure a) cs a cs := rfl

theorem Reads.bind (first : Reads p cs a mid) (next : Reads (f a) mid b rest) :
    Reads (p >>= f) cs b rest := by
  rw [Reads, StateT.run_bind, first]
  exact next

theorem Fails.bind (first : Fails p cs) : Fails (p >>= f) cs := by
  rw [Fails, StateT.run_bind, first]
  rfl

theorem Reads.bind_fails (first : Reads p cs a mid) (next : Fails (f a) mid) :
    Fails (p >>= f) cs := by
  rw [Fails, StateT.run_bind, first]
  exact next

theorem Reads.map {g : α → β} (here : Reads p cs a rest) : Reads (g <$> p) cs (g a) rest := by
  rw [Reads, StateT.run_map, here]
  rfl

theorem Fails.map {g : α → β} (here : Fails p cs) : Fails (g <$> p) cs := by
  rw [Fails, StateT.run_map, here]
  rfl

theorem Reads.orElse (first : Reads p cs a rest) : Reads (p <|> q) cs a rest := by
  show (p.run (.ofList cs) <|> q.run (.ofList cs)) = _
  rw [first]
  rfl

theorem Fails.orElse_reads (first : Fails p cs) (other : Reads q cs a rest) :
    Reads (p <|> q) cs a rest := by
  show (p.run (.ofList cs) <|> q.run (.ofList cs)) = _
  rw [first]
  exact other

theorem Fails.orElse (first : Fails p cs) (other : Fails q cs) : Fails (p <|> q) cs := by
  show (p.run (.ofList cs) <|> q.run (.ofList cs)) = _
  rw [first]
  exact other

theorem Reads.optional (here : Reads p cs a rest) : Reads (optional p) cs (some a) rest :=
  here.map.orElse

theorem Fails.optional (here : Fails p cs) : Reads (optional p) cs none cs :=
  here.map.orElse_reads (.pure none cs)

theorem fails_failure (cs : List Char) : Fails (failure : Scan α) cs := rfl

/-! ## Single characters -/

theorem reads_satisfy (holds : kind c = true) (rest : List Char) :
    Reads (satisfy kind) (c :: rest) c rest := by
  show (if kind c then _ else _) = _
  rw [if_pos holds]
  exact congrArg (fun r => some (c, r)) (eq_ofList rfl)

theorem fails_satisfy (other : ∀ c, cs.head? = some c → kind c = false) : Fails (satisfy kind) cs := by
  cases cs with
  | nil => rfl
  | cons c rest =>
      show (if kind c then _ else _) = _
      rw [other c rfl]
      rfl

theorem reads_char (c : Char) (rest : List Char) : Reads (char c) (c :: rest) () rest :=
  (reads_satisfy (by simp) rest).bind (.pure _ _)

theorem fails_char (other : cs.head? ≠ some c) : Fails (char c) cs := by
  refine Fails.bind (fails_satisfy fun d begins => ?_)
  have differs : d ≠ c := by
    rintro rfl
    exact other begins
  simpa using differs

theorem fails_word (other : cs.head? ≠ some c) (others : List Char) : Fails (word (c :: others)) cs :=
  (fails_char other).bind

/-! ## Runs of characters -/

theorem reads_takeWhile (all : ∀ c ∈ cs, kind c = true)
    (stop : ∀ c, rest.head? = some c → kind c = false) :
    Reads (takeWhile kind) (cs ++ rest) cs rest := by
  have taken : rest.takeWhile kind = [] ∧ rest.dropWhile kind = rest := by
    cases rest with
    | nil => exact ⟨rfl, rfl⟩
    | cons c others => simp [stop c rfl]
  show some ((cs ++ rest).takeWhile kind, _) = _
  rw [List.takeWhile_append_of_pos all, taken.1, List.append_nil]
  refine congrArg (fun r => some (cs, r)) (eq_ofList ?_)
  show (cs ++ rest).dropWhile kind = rest
  rw [List.dropWhile_append_of_pos all, taken.2]

theorem reads_takeWhile1 (holds : kind c = true) (all : ∀ d ∈ cs, kind d = true)
    (stop : ∀ d, rest.head? = some d → kind d = false) :
    Reads (takeWhile1 kind) (c :: (cs ++ rest)) (c :: cs) rest :=
  (reads_satisfy holds _).bind ((reads_takeWhile all stop).bind (.pure _ _))

theorem fails_takeWhile1 (other : ∀ c, cs.head? = some c → kind c = false) :
    Fails (takeWhile1 kind) cs := (fails_satisfy other).bind

theorem reads_skipWhile (all : ∀ c ∈ cs, kind c = true)
    (stop : ∀ c, rest.head? = some c → kind c = false) :
    Reads (skipWhile kind) (cs ++ rest) () rest :=
  (reads_takeWhile all stop).bind (.pure _ _)

theorem reads_exactly (all : ∀ c ∈ cs, kind c = true) (rest : List Char) :
    Reads (exactly cs.length kind) (cs ++ rest) cs rest := by
  have taken : (Rest.ofList (cs ++ rest)).cut cs.length = (cs, .ofList rest) :=
    Prod.ext List.take_left (eq_ofList List.drop_left)
  have kinds : cs.all kind = true := List.all_eq_true.mpr all
  show exactly cs.length kind (Rest.ofList (cs ++ rest)) = _
  simp only [exactly, taken, kinds, Bool.and_true, decide_true, if_true]

/-- There are too few characters, or they are not all of the kind. -/
theorem fails_exactly {n : Nat} (other : (cs.take n).length < n ∨ (cs.take n).all kind = false) :
    Fails (exactly n kind) cs := by
  show (if ((cs.take n).length = n && (cs.take n).all kind) then _ else _) = _
  refine if_neg ?_
  rcases other with short | other
  · have differs : decide ((cs.take n).length = n) = false := decide_eq_false (Nat.ne_of_lt short)
    simp only [differs, Bool.false_and, Bool.false_eq_true, not_false_eq_true]
  · simp only [other, Bool.and_false, Bool.false_eq_true, not_false_eq_true]

/-! ## Repetition -/

theorem reads_ended : Reads ended [] () [] := rfl

/-- A scanner is repeated up to where it reads nothing. -/
theorem Fails.many (here : Fails p cs) : Reads (Scan.many p) cs [] cs := by
  have here : p (.ofList cs) = none := here
  show some (repeated p (.ofList cs)) = _
  rw [repeated, here]

theorem Reads.many {as : List α} (here : Reads p cs a mid) (ahead : mid.length < cs.length)
    (others : Reads (Scan.many p) mid as rest) : Reads (Scan.many p) cs (a :: as) rest := by
  have here : p (.ofList cs) = some (a, .ofList mid) := here
  have others : repeated p (.ofList mid) = (as, .ofList rest) := Option.some.inj others
  show some (repeated p (.ofList cs)) = _
  rw [repeated, here]
  simp only [others]
  have ahead : (Rest.ofList mid).size < (Rest.ofList cs).size := ahead
  rw [if_pos ahead]

theorem Reads.separated {separator : Scan Unit} {as : List α} (here : Reads p cs a mid)
    (others : Reads (Scan.many (do separator; p)) mid as rest) :
    Reads (Scan.separated p separator) cs (a :: as) rest :=
  here.bind (others.bind (.pure _ _))

theorem Reads.whole? (here : Reads p cs a []) : whole? p cs = some a := by
  rw [Scan.whole?, here]
  rfl

end Accelerator.Scan
