import Accelerator.Proofs.Memory.Cache
import Accelerator.Proofs.Session
import Mathlib.Data.Finset.Sort

/-!
# A cache as a list and a set

A cache comes down to two things: the resident lines in the order in which they were filled, and the
set of lines that missed in the cycle looked up last. `DeferredFifo` is that description. A cache
that was built empty gives the answers of the description to all look-ups, at whatever cycles they
are made and however the capacity is changed in between (`uses_follow_description`).

A smaller capacity takes effect line by line: it stops the list from growing, but does not shorten
it. So there may be more resident lines than there is room for now, but never more than there has
been room for at some time.
-/

namespace Accelerator

/-- A cache with deferred fills as it is described. -/
structure DeferredFifo where
  capacity : Nat
  /-- The resident lines, longest resident first. -/
  lines : List Nat := []
  /-- The lines that missed in the latest cycle. -/
  missed : Finset Nat := ∅
  /-- The cycle of the latest look-up. -/
  latest : Option Nat := none

namespace DeferredFifo

/-- The lines that stay when another one comes: without room for it the oldest one is evicted. -/
def kept (r : DeferredFifo) : List Nat :=
  if r.capacity ≤ r.lines.length then r.lines.tail else r.lines

/-- A line becomes resident. -/
def append (r : DeferredFifo) (line : Nat) : DeferredFifo := { r with lines := r.kept ++ [line] }

/-- In another cycle than the latest the lines that missed in that one become resident, in ascending
order. -/
def publish (r : DeferredFifo) (now : Nat) : DeferredFifo :=
  if r.latest = some now then r
  else { r.missed.sort.foldl append r with missed := ∅, latest := some now }

/-- A line that misses will be filled, unless there is no room for any. -/
def lookup (r : DeferredFifo) (line now : Nat) : Bool × DeferredFifo :=
  let r := r.publish now
  if line ∈ r.lines then (true, r)
  else (false, { r with missed := if 0 < r.capacity then insert line r.missed else r.missed })

theorem mem_of_mem_kept {r : DeferredFifo} {line : Nat} (member : line ∈ r.kept) :
    line ∈ r.lines := by
  unfold kept at member
  split at member
  · exact List.mem_of_mem_tail member
  · exact member

theorem latest_publish (r : DeferredFifo) (now : Nat) : (r.publish now).latest = some now := by
  unfold publish
  split
  next same => exact same
  next => rfl

end DeferredFifo

namespace Cache

/-! ## The use of a cache -/

inductive Use where
  | lookup (line now : Nat)
  /-- From now on there is room for so many lines. -/
  | resize (capacity : Nat)

def Use.isLookup : Use → Bool
  | lookup .. => true
  | resize _ => false

/-- No other cycle is looked up. -/
def Use.staysAt (now : Nat) : Use → Bool
  | lookup _ cycle => cycle == now
  | resize _ => true

/-- The capacity that is in force from now on, if it is a new one. -/
def Use.capacity? : Use → Option Nat
  | lookup .. => none
  | resize capacity => some capacity

/-- A look-up is answered, a change of the capacity is not. -/
def use (c : Cache) : Use → Option Bool × Cache
  | .lookup line now => (c.lookup line now).map some id
  | .resize capacity => (none, { c with capacity })

end Cache

def DeferredFifo.use (r : DeferredFifo) : Cache.Use → Option Bool × DeferredFifo
  | .lookup line now => (r.lookup line now).map some id
  | .resize capacity => (none, { r with capacity })

namespace Cache

variable {c : Cache} {r : DeferredFifo} {line now : Nat}

/-! ## The resident lines -/

/-- Both ways in which a cache keeps its resident lines agree with the list. -/
structure Holds (c : Cache) (r : DeferredFifo) : Prop where
  capacity : c.capacity = r.capacity
  distinct : r.lines.Nodup
  order : c.order.toList = r.lines
  resident : ∀ line, c.isResident line = decide (line ∈ r.lines)
  size : c.resident.size = r.lines.length

/-- Only the capacity and the resident lines matter. -/
theorem Holds.congr {d : Cache} {q : DeferredFifo} (holds : c.Holds r)
    (capacity : d.capacity = q.capacity) (lines : q.lines = r.lines) (order : d.order = c.order)
    (resident : d.resident = c.resident) : d.Holds q where
  capacity := capacity
  distinct := lines ▸ holds.distinct
  order := by rw [order, lines, holds.order]
  resident line := by
    rw [isResident, resident, lines]
    exact holds.resident line
  size := by rw [resident, lines, holds.size]

theorem Holds.evict (holds : c.Holds r) : c.evict.Holds { r with lines := r.lines.tail } := by
  unfold Cache.evict
  split
  next nothing =>
    have empty : r.lines = [] := holds.order ▸ (Queue.pop?_eq_none_iff _).mp nothing
    have same : { r with lines := r.lines.tail } = r := by rw [empty, List.tail_nil, ← empty]
    rw [same]
    exact holds
  next victim order popped =>
    have lines : r.lines = victim :: order.toList :=
      holds.order ▸ Queue.toList_of_pop? popped
    have stranger : victim ∉ order.toList := (List.nodup_cons.mp (lines ▸ holds.distinct)).1
    have here : c.resident.contains victim = true := by
      have resident := holds.resident victim
      simpa [isResident, lines] using resident
    refine ⟨holds.capacity, holds.distinct.tail, by rw [lines]; rfl, fun line => ?_, ?_⟩
    · have resident := holds.resident line
      simp only [isResident, lines, List.tail_cons, Std.TreeSet.contains_erase,
        List.mem_cons] at resident ⊢
      rw [resident]
      by_cases same : line = victim
      · simp [same, stranger]
      · simp [same, Ne.symm same]
    · simp [Std.TreeSet.size_erase, here, holds.size]

theorem Holds.makeRoom (holds : c.Holds r) :
    (if c.capacity ≤ c.resident.size then c.evict else c).Holds { r with lines := r.kept } := by
  rw [holds.capacity, holds.size, DeferredFifo.kept]
  split
  · exact holds.evict
  · exact holds

/-- A line that was not resident becomes the last one. -/
theorem Holds.join (holds : c.Holds r) (absent : line ∉ r.lines) :
    Holds { c with resident := c.resident.insert line, order := c.order.push line }
      { r with lines := r.lines ++ [line] } where
  capacity := holds.capacity
  distinct := List.nodup_append.mpr ⟨holds.distinct, List.nodup_singleton line,
    fun _ member _ here same => absent (List.mem_singleton.mp here ▸ same ▸ member)⟩
  order := by rw [Queue.toList_push, holds.order]
  resident other := by
    have resident := holds.resident other
    simp only [isResident, Std.TreeSet.contains_insert, List.mem_append,
      List.mem_singleton] at resident ⊢
    rw [resident]
    by_cases same : other = line
    · simp [same]
    · simp [same, Ne.symm same]
  size := by
    have missing : c.resident.contains line = false :=
      (holds.resident line).trans (decide_eq_false absent)
    simp [Std.TreeSet.size_insert, missing, holds.size]

theorem Holds.fill (holds : c.Holds r) (absent : line ∉ r.lines) :
    (c.fill line).Holds (r.append line) := by
  have missing : c.isResident line = false := by rw [holds.resident, decide_eq_false absent]
  rw [Cache.fill, if_neg (Bool.eq_false_iff.mp missing)]
  exact holds.makeRoom.join fun member => absent (DeferredFifo.mem_of_mem_kept member)

/-- Lines that are not resident become so one after the other. -/
theorem Holds.fillAll (holds : c.Holds r) {lines : List Nat} (distinct : lines.Nodup)
    (absent : ∀ line ∈ lines, line ∉ r.lines) :
    (lines.foldl Cache.fill c).Holds (lines.foldl DeferredFifo.append r) := by
  induction lines generalizing c r with
  | nil => exact holds
  | cons line rest ih =>
      obtain ⟨stranger, others⟩ := List.nodup_cons.mp distinct
      have first := holds.fill (absent line (List.mem_cons_self ..))
      refine ih first others fun other later member => ?_
      rcases List.mem_append.mp member with before | same
      · exact absent other (List.mem_cons_of_mem _ later) (DeferredFifo.mem_of_mem_kept before)
      · exact stranger (List.mem_singleton.mp same ▸ later)

/-! ## The lines to be filled -/

/-- A cache is in the state that the description says. -/
structure Follows (c : Cache) (r : DeferredFifo) : Prop extends Holds c r where
  ordered : c.Ordered
  missed : r.missed = c.filling.toFinset
  /-- A line that missed is not resident. -/
  apart : ∀ line ∈ r.missed, line ∉ r.lines
  latest : ∀ now, r.latest = some now → c.SettledAt now
  unused : r.latest = none → r.missed = ∅

theorem follows_create (capacity lineSize hitLatency : Nat) :
    (create capacity lineSize hitLatency).Follows { capacity } where
  capacity := rfl
  distinct := List.nodup_nil
  order := rfl
  resident _ := rfl
  size := rfl
  ordered := ordered_create ..
  missed := rfl
  apart _ member := absurd member (Finset.notMem_empty _)
  latest _ given := nomatch given
  unused _ := rfl

theorem Follows.sort_missed (follows : c.Follows r) : r.missed.sort = c.filling.reverse := by
  have ascending : c.filling.reverse.Pairwise (· < ·) := List.pairwise_reverse.mpr follows.ordered
  have distinct : c.filling.reverse.Nodup := ascending.imp Nat.ne_of_lt
  rw [follows.missed, ← List.toFinset_reverse]
  exact (List.toFinset_sort _ distinct).mpr (ascending.imp Nat.le_of_lt)

/-- Before the first look-up no line has missed. -/
theorem Follows.filling_eq_nil (follows : c.Follows r) (unused : r.latest = none) :
    c.filling = [] :=
  (List.toFinset_eq_empty_iff _).mp (follows.missed ▸ follows.unused unused)

/-- In another cycle than the latest the lines that missed are filled, in the order in which the
description says. -/
theorem Follows.filled (follows : c.Follows r) (other : r.latest ≠ some now) :
    (c.settle now).Holds (r.missed.sort.foldl DeferredFifo.append r) ∧
      (c.settle now).filling = [] := by
  rw [follows.sort_missed]
  by_cases here : now = c.fillCycle
  · -- A cache that has not been looked up yet takes this cycle for the latest by chance.
    have unused : r.latest = none := by
      rcases latest : r.latest with _ | cycle
      · rfl
      · have settled : c.fillCycle = cycle := follows.latest cycle latest
        rw [latest, here, settled] at other
        exact absurd rfl other
    have empty := follows.filling_eq_nil unused
    rw [settle_of_settledAt here.symm, empty]
    exact ⟨follows.toHolds, rfl⟩
  · have cleared : Holds { c with filling := [] } r := follows.congr follows.capacity rfl rfl rfl
    have distinct : c.filling.reverse.Nodup := follows.sort_missed ▸ r.missed.sort_nodup _
    have absent : ∀ line ∈ c.filling.reverse, line ∉ r.lines := by
      rw [← follows.sort_missed]
      exact fun line member => follows.apart line ((Finset.mem_sort _).mp member)
    have filled := cleared.fillAll distinct absent
    rw [settle, if_neg here]
    exact ⟨filled.congr filled.capacity rfl rfl rfl, filling_foldl_fill ..⟩

theorem Follows.settle (follows : c.Follows r) (now : Nat) :
    (c.settle now).Follows (r.publish now) := by
  by_cases same : r.latest = some now
  · rw [settle_of_settledAt (follows.latest now same), DeferredFifo.publish, if_pos same]
    exact follows
  · obtain ⟨filled, nothing⟩ := follows.filled same
    rw [DeferredFifo.publish, if_neg same]
    exact {
      toHolds := filled.congr filled.capacity rfl rfl rfl
      ordered := follows.ordered.settle now
      missed := by rw [nothing, List.toFinset_nil]
      apart := fun line member => absurd member (Finset.notMem_empty line)
      latest := fun cycle given => Option.some.inj given ▸ settledAt_settle c now
      unused := fun _ => rfl }

/-! ## Using the cache -/

theorem toFinset_insertDescending (line : Nat) (l : List Nat) :
    (insertDescending line l).toFinset = insert line l.toFinset := by
  ext other
  simp [mem_insertDescending]

theorem Follows.lookup (follows : c.Follows r) (line now : Nat) :
    (c.lookup line now).1 = (r.lookup line now).1 ∧
      (c.lookup line now).2.Follows (r.lookup line now).2 := by
  have settled := follows.settle now
  have latest := r.latest_publish now
  rw [lookup_eq, DeferredFifo.lookup]
  generalize c.settle now = d at settled
  generalize r.publish now = q at settled latest
  by_cases member : line ∈ q.lines
  · have resident : d.isResident line = true := by rw [settled.resident, decide_eq_true member]
    rw [noted_of_resident resident, resident, if_pos member]
    exact ⟨rfl, { settled with }⟩
  · have absent : d.isResident line = false := by rw [settled.resident, decide_eq_false member]
    have missed : (if 0 < q.capacity then insert line q.missed else q.missed) =
        (if d.capacity = 0 then d.filling else insertDescending line d.filling).toFinset := by
      rw [settled.capacity, settled.missed]
      by_cases none : q.capacity = 0
      · rw [if_neg (Nat.not_lt.mpr (Nat.le_of_eq none)), if_pos none]
      · rw [if_pos (Nat.pos_of_ne_zero none), if_neg none, toFinset_insertDescending]
    have ordered := settled.ordered.noted line
    rw [noted_of_absent absent] at ordered ⊢
    rw [absent, if_neg member]
    refine ⟨rfl, { settled with ordered, missed, apart := fun other waits => ?_, unused := ?_ }⟩
    · dsimp only at waits
      split at waits
      · rcases Finset.mem_insert.mp waits with rfl | before
        · exact member
        · exact settled.apart other before
      · exact settled.apart other waits
    · intro none
      rw [latest] at none
      cases none

theorem Follows.use (follows : c.Follows r) (use : Use) :
    (c.use use).1 = (r.use use).1 ∧ (c.use use).2.Follows (r.use use).2 := by
  cases use with
  | lookup line now =>
      obtain ⟨answer, next⟩ := follows.lookup line now
      exact ⟨congrArg some answer, next⟩
  | resize capacity => exact ⟨rfl, { follows with capacity := rfl }⟩

theorem Follows.session (follows : c.Follows r) (uses : List Use) :
    (session Cache.use c uses).1 = (session DeferredFifo.use r uses).1 ∧
      (session Cache.use c uses).2.Follows (session DeferredFifo.use r uses).2 :=
  session_alike (R := Follows) (fun _ _ use follows => follows.use use) follows uses

end Cache

/-! ## How many lines are resident -/

namespace DeferredFifo

variable {r : DeferredFifo} {most : Nat}

/-- No more than `most` lines are resident, nor will be. -/
structure Within (r : DeferredFifo) (most : Nat) : Prop where
  capacity : r.capacity ≤ most
  length : r.lines.length ≤ most
  /-- No line waits to be filled if there was never room for any. -/
  room : r.missed.Nonempty → 0 < most

theorem Within.mono (within : r.Within most) {more : Nat} (le : most ≤ more) : r.Within more where
  capacity := within.capacity.trans le
  length := within.length.trans le
  room waits := (within.room waits).trans_le le

theorem Within.append (within : r.Within most) (room : 0 < most) (line : Nat) :
    (r.append line).Within most where
  capacity := within.capacity
  length := by
    have capacity := within.capacity
    have length := within.length
    simp only [DeferredFifo.append, DeferredFifo.kept, List.length_append, List.length_singleton]
    split
    · rw [List.length_tail]
      omega
    · omega
  room _ := room

theorem Within.fillAll (within : r.Within most) {lines : List Nat} (room : lines ≠ [] → 0 < most) :
    (lines.foldl DeferredFifo.append r).Within most := by
  induction lines generalizing r with
  | nil => exact within
  | cons line rest ih =>
      have some := room (List.cons_ne_nil line rest)
      exact ih (within.append some line) fun _ => some

theorem Within.publish (within : r.Within most) (now : Nat) : (r.publish now).Within most := by
  unfold DeferredFifo.publish
  split
  · exact within
  · have room : r.missed.sort ≠ [] → 0 < most := fun waits =>
      within.room (Finset.nonempty_iff_ne_empty.mpr fun none =>
        waits (by rw [none, Finset.sort_empty]))
    have filled := within.fillAll room
    exact ⟨filled.capacity, filled.length, fun waits => absurd waits Finset.not_nonempty_empty⟩

theorem Within.lookup (within : r.Within most) (line now : Nat) :
    (r.lookup line now).2.Within most := by
  have published := within.publish now
  unfold DeferredFifo.lookup
  dsimp only
  split
  · exact published
  · refine ⟨published.capacity, published.length, fun waits => ?_⟩
    dsimp only at waits
    split at waits
    next room => exact room.trans_le published.capacity
    next => exact published.room waits

/-- The largest capacity that has been in force, if `most` was the largest before. -/
def largest (most : Nat) (uses : List Cache.Use) : Nat :=
  (uses.filterMap Cache.Use.capacity?).foldl max most

theorem Within.session (within : r.Within most) (uses : List Cache.Use) :
    (session use r uses).2.Within (largest most uses) := by
  induction uses generalizing r most with
  | nil => exact within
  | cons use rest ih =>
      cases use with
      | lookup line now => exact ih (within.lookup line now)
      | resize capacity =>
          have wider := within.mono (Nat.le_max_left most capacity)
          exact ih (r := { r with capacity })
            ⟨Nat.le_max_right most capacity, wider.length, wider.room⟩

end DeferredFifo

namespace Cache

/-! ## Counters, and answers that stay -/

theorem use_lookup (c : Cache) (line now : Nat) :
    c.use (.lookup line now) =
      (some ((c.settle now).isResident line), (c.settle now).noted line) := by
  rw [Cache.use, lookup_eq]
  rfl

theorem hits_use (c : Cache) (use : Use) :
    (c.use use).2.hits = c.hits + if (c.use use).1 == some true then 1 else 0 := by
  cases use with
  | lookup line now =>
      have hits := hits_settle c now
      rw [use_lookup]
      cases resident : (c.settle now).isResident line with
      | true => rw [noted_of_resident resident, hits]; rfl
      | false => rw [noted_of_absent resident, hits]; rfl
  | resize capacity => rfl

/-- A look-up is counted once, whatever comes of it. -/
theorem hits_add_misses_use (c : Cache) (use : Use) :
    (c.use use).2.hits + (c.use use).2.misses =
      c.hits + c.misses + if use.isLookup then 1 else 0 := by
  cases use with
  | lookup line now =>
      have hits := hits_settle c now
      have misses := misses_settle c now
      rw [use_lookup, ← hits, ← misses, Use.isLookup, if_pos rfl]
      cases resident : (c.settle now).isResident line with
      | true => rw [noted_of_resident resident]; exact Nat.add_right_comm ..
      | false => rw [noted_of_absent resident]; rfl
  | resize capacity => rfl

theorem hits_session (c : Cache) (uses : List Use) :
    (session use c uses).2.hits = c.hits + (session use c uses).1.count (some true) := by
  induction uses generalizing c with
  | nil => rfl
  | cons use rest ih =>
      rw [session_cons, List.count_cons, ih, hits_use]
      omega

theorem hits_add_misses_session (c : Cache) (uses : List Use) :
    (session use c uses).2.hits + (session use c uses).2.misses =
      c.hits + c.misses + uses.countP Use.isLookup := by
  induction uses generalizing c with
  | nil => rfl
  | cons use rest ih =>
      rw [session_cons, List.countP_cons, ih, hits_add_misses_use]
      omega

theorem resident_noted (c : Cache) (line : Nat) : (c.noted line).resident = c.resident := by
  unfold noted
  split <;> rfl

/-- As long as no other cycle is looked up nothing else becomes resident. -/
theorem settledAt_use {c : Cache} {now : Nat} {use : Use} (stays : use.staysAt now = true)
    (settled : c.SettledAt now) :
    (c.use use).2.SettledAt now ∧ (c.use use).2.resident = c.resident := by
  cases use with
  | lookup line cycle =>
      obtain rfl : cycle = now := beq_iff_eq.mp stays
      rw [use_lookup, settle_of_settledAt settled]
      exact ⟨settled.noted line, c.resident_noted line⟩
  | resize capacity => exact ⟨settled, rfl⟩

/-- In one cycle a line is found resident each time or never. -/
theorem answer_stays (c : Cache) (line now : Nat) {between : List Use}
    (stays : ∀ use ∈ between, use.staysAt now = true) :
    ((session use (c.use (.lookup line now)).2 between).2.use (.lookup line now)).1 =
      (c.use (.lookup line now)).1 := by
  let Same (d : Cache) : Prop := d.SettledAt now ∧ d.resident = (c.settle now).resident
  have first : Same (c.use (.lookup line now)).2 := by
    rw [use_lookup]
    exact ⟨(c.settledAt_settle now).noted line, resident_noted ..⟩
  obtain ⟨settled, resident⟩ : Same (session use (c.use (.lookup line now)).2 between).2 :=
    session_kept (fun d use member same =>
      have next := settledAt_use (stays use member) same.1
      ⟨next.1, next.2.trans same.2⟩) first
  rw [use_lookup (session ..).2, settle_of_settledAt settled, isResident, resident, use_lookup c]
  rfl

/-! ## The description -/

/-- A cache that is looked up and resized in any way gives the answers that its description gives,
and ends with the lines of the description in the same order. It counts its look-ups, answers a
line that is looked up again in the same cycle as before, and has no more lines resident than there
has been room for. -/
theorem uses_follow_description (capacity lineSize hitLatency : Nat) (uses : List Use) :
    let (answers, c) := session use (create capacity lineSize hitLatency) uses
    let (expected, r) := session DeferredFifo.use { capacity } uses
    answers = expected ∧ c.Follows r ∧
      c.hits = answers.count (some true) ∧ c.hits + c.misses = uses.countP Use.isLookup ∧
      c.resident.size ≤ DeferredFifo.largest capacity uses ∧
      ∀ line now between, (∀ use ∈ between, use.staysAt now = true) →
        let (answer, seen) := c.use (.lookup line now)
        ((session use seen between).2.use (.lookup line now)).1 = answer := by
  obtain ⟨answers, follows⟩ := (follows_create capacity lineSize hitLatency).session uses
  have new : DeferredFifo.Within { capacity } capacity :=
    ⟨Nat.le_refl _, Nat.zero_le _, fun waits => absurd waits Finset.not_nonempty_empty⟩
  have hits := hits_session (create capacity lineSize hitLatency) uses
  have lookups := hits_add_misses_session (create capacity lineSize hitLatency) uses
  have few := follows.size ▸ (new.session uses).length
  refine ⟨answers, follows, hits.trans (Nat.zero_add _), lookups.trans (Nat.zero_add _), few, ?_⟩
  exact fun line now between stays => answer_stays _ line now stays

/-- Two lines are resident when the capacity becomes one. The next line that is filled takes the
place of the first, and there are two again. -/
example : (session use (create 2 64 10) [.lookup 1 0, .lookup 2 0, .lookup 3 1, .resize 1,
    .lookup 4 2]).2.order.toList = [2, 3] := rfl

end Cache

end Accelerator
