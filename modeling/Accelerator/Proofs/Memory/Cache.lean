import Accelerator.Memory.Cache

/-!
# Look-ups of one cycle

The first look-up of a cycle fills the lines that missed before it. From then on a look-up changes
nothing but counters and the set of lines to be filled next, so that it takes no notice of the
other look-ups of its cycle: they find the same contents in any order, and leave the same cache
behind.

The lines to be filled are kept as a descending list, which stands for a set. `Cache.Ordered` says
that it does; every cache that was built empty and only looked up since is ordered.
-/

namespace Accelerator

/-! ## Descending lists as sets -/

theorem mem_insertDescending {line other : Nat} {l : List Nat} :
    other ∈ insertDescending line l ↔ other = line ∨ other ∈ l := by
  induction l with
  | nil => simp [insertDescending]
  | cons first rest ih =>
      rw [insertDescending]
      split
      · exact List.mem_cons
      · split
        next same => simp [same]
        next =>
          rw [List.mem_cons, ih, List.mem_cons]
          exact or_left_comm

theorem pairwise_insertDescending {l : List Nat} (line : Nat) (descending : l.Pairwise (· > ·)) :
    (insertDescending line l).Pairwise (· > ·) := by
  induction descending with
  | nil => exact List.pairwise_singleton _ _
  | cons below rest ih =>
      rename_i first tail
      rw [insertDescending]
      split
      next before =>
        refine List.pairwise_cons.mpr ⟨fun other member => ?_, List.pairwise_cons.mpr ⟨below, rest⟩⟩
        rcases List.mem_cons.mp member with rfl | later
        · exact before
        · exact Nat.lt_trans (below other later) before
      next notBefore =>
        split
        · exact List.pairwise_cons.mpr ⟨below, rest⟩
        next differs =>
          refine List.pairwise_cons.mpr ⟨fun other member => ?_, ih⟩
          rcases mem_insertDescending.mp member with rfl | later
          · show other < first
            omega
          · exact below other later

/-- A list does not show in which order two lines were put into it: the larger one stands before the
first line that is not above it, and so does not stand in the other's way. -/
theorem insertDescending_comm (line other : Nat) (l : List Nat) :
    insertDescending line (insertDescending other l) =
      insertDescending other (insertDescending line l) := by
  induction l with
  | nil => grind [insertDescending]
  | cons first rest ih => grind [insertDescending]

namespace Cache

/-- The lines to be filled are listed from the highest to the lowest, none of them twice. -/
def Ordered (c : Cache) : Prop := c.filling.Pairwise (· > ·)

/-- The cache has been looked up in this cycle already. -/
def SettledAt (c : Cache) (now : Nat) : Prop := c.fillCycle = now

variable {c : Cache} {now : Nat}

theorem ordered_create (capacity lineSize hitLatency : Nat) :
    (create capacity lineSize hitLatency).Ordered := List.Pairwise.nil

/-! ## Settling -/

theorem settledAt_settle (c : Cache) (now : Nat) : (c.settle now).SettledAt now := by
  unfold settle
  split
  next same => exact same.symm
  next => rfl

theorem settle_of_settledAt (settled : c.SettledAt now) : c.settle now = c := by
  rw [settle, if_pos settled.symm]

/-- Filling a line changes nothing but what is resident. -/
theorem fill_eq (c : Cache) (line : Nat) :
    ∃ resident order, c.fill line = { c with resident, order } := by
  unfold fill
  split
  · exact ⟨c.resident, c.order, rfl⟩
  · split
    · unfold evict
      split <;> exact ⟨_, _, rfl⟩
    · exact ⟨_, _, rfl⟩

theorem foldl_fill_eq (lines : List Nat) (c : Cache) :
    ∃ resident order, lines.foldl fill c = { c with resident, order } := by
  induction lines generalizing c with
  | nil => exact ⟨c.resident, c.order, rfl⟩
  | cons line rest ih =>
      obtain ⟨resident, order, filled⟩ := c.fill_eq line
      obtain ⟨resident', order', others⟩ := ih (c.fill line)
      exact ⟨resident', order', by rw [List.foldl_cons, others, filled]⟩

theorem filling_foldl_fill (lines : List Nat) (c : Cache) :
    (lines.foldl fill c).filling = c.filling := by
  obtain ⟨resident, order, filled⟩ := foldl_fill_eq lines c
  rw [filled]

/-- Settling is about lines and the cycle. -/
theorem settle_eq (c : Cache) (now : Nat) :
    ∃ resident order filling,
      c.settle now = { c with resident, order, filling, fillCycle := now } := by
  unfold settle
  split
  next same => exact ⟨c.resident, c.order, c.filling, by rw [same]⟩
  next =>
    obtain ⟨resident, order, filled⟩ := foldl_fill_eq c.filling.reverse { c with filling := [] }
    exact ⟨resident, order, [], by rw [filled]⟩

@[simp] theorem lineSize_settle (c : Cache) (now : Nat) : (c.settle now).lineSize = c.lineSize := by
  obtain ⟨resident, order, filling, settled⟩ := c.settle_eq now
  rw [settled]

@[simp] theorem hitLatency_settle (c : Cache) (now : Nat) :
    (c.settle now).hitLatency = c.hitLatency := by
  obtain ⟨resident, order, filling, settled⟩ := c.settle_eq now
  rw [settled]

@[simp] theorem hits_settle (c : Cache) (now : Nat) : (c.settle now).hits = c.hits := by
  obtain ⟨resident, order, filling, settled⟩ := c.settle_eq now
  rw [settled]

@[simp] theorem misses_settle (c : Cache) (now : Nat) : (c.settle now).misses = c.misses := by
  obtain ⟨resident, order, filling, settled⟩ := c.settle_eq now
  rw [settled]

theorem Ordered.settle (ordered : c.Ordered) (now : Nat) : (c.settle now).Ordered := by
  unfold Cache.settle
  split
  · exact ordered
  · show (List.foldl fill { c with filling := [] } c.filling.reverse).filling.Pairwise (· > ·)
    rw [filling_foldl_fill]
    exact List.Pairwise.nil

/-! ## Looking up in a settled cache -/

/-- The cache after a look-up that found it settled. -/
def noted (c : Cache) (line : Nat) : Cache :=
  if c.isResident line then { c with hits := c.hits + 1 }
  else { c with
    misses := c.misses + 1
    filling := if c.capacity = 0 then c.filling else insertDescending line c.filling }

theorem lookup_eq (c : Cache) (line now : Nat) :
    c.lookup line now = ((c.settle now).isResident line, (c.settle now).noted line) := by
  show (if (c.settle now).isResident line then _ else _) = _
  unfold noted
  cases resident : (c.settle now).isResident line <;> rfl

/-- Nothing that a later look-up of the cycle asks for depends on the earlier ones. -/
theorem isResident_noted (c : Cache) (line other : Nat) :
    (c.noted line).isResident other = c.isResident other := by
  unfold noted
  split <;> rfl

@[simp] theorem lineSize_noted (c : Cache) (line : Nat) :
    (c.noted line).lineSize = c.lineSize := by
  unfold noted
  split <;> rfl

@[simp] theorem hitLatency_noted (c : Cache) (line : Nat) :
    (c.noted line).hitLatency = c.hitLatency := by
  unfold noted
  split <;> rfl

theorem SettledAt.noted (settled : c.SettledAt now) (line : Nat) :
    (c.noted line).SettledAt now := by
  unfold Cache.noted
  split <;> exact settled

theorem Ordered.noted (ordered : c.Ordered) (line : Nat) : (c.noted line).Ordered := by
  unfold Cache.noted
  split
  · exact ordered
  · show (if c.capacity = 0 then c.filling else insertDescending line c.filling).Pairwise (· > ·)
    split
    · exact ordered
    · exact pairwise_insertDescending line ordered

theorem noted_of_resident {line : Nat} (resident : c.isResident line = true) :
    c.noted line = { c with hits := c.hits + 1 } := if_pos resident

theorem noted_of_absent {line : Nat} (absent : c.isResident line = false) :
    c.noted line = { c with
      misses := c.misses + 1
      filling := if c.capacity = 0 then c.filling else insertDescending line c.filling } :=
  if_neg (Bool.eq_false_iff.mp absent)

/-- Two look-ups of one cycle leave the same cache behind in either order. -/
theorem noted_comm (c : Cache) (line other : Nat) :
    (c.noted line).noted other = (c.noted other).noted line := by
  have here' := c.isResident_noted other line
  have there' := c.isResident_noted line other
  cases here : c.isResident line <;> cases there : c.isResident other <;>
    rw [here] at here' <;> rw [there] at there'
  · rw [noted_of_absent there', noted_of_absent here', noted_of_absent here, noted_of_absent there]
    have lines := insertDescending_comm other line c.filling
    by_cases room : c.capacity = 0
    · simp only [room, if_true]
    · simp only [room, if_false, lines]
  · rw [noted_of_resident there', noted_of_absent here', noted_of_absent here,
      noted_of_resident there]
  · rw [noted_of_absent there', noted_of_resident here', noted_of_resident here,
      noted_of_absent there]
  · rw [noted_of_resident there', noted_of_resident here', noted_of_resident here,
      noted_of_resident there]

end Cache

end Accelerator
