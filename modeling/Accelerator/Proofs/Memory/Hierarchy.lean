import Accelerator.Memory.Hierarchy
import Accelerator.Proofs.Memory.Cache
import Accelerator.Proofs.Session

/-!
# Requests of one cycle

A memory service is *impartial* when the requests of one cycle do not get in each other's way: each
of them is answered as if it were the only one, and together they leave the same state behind in
any order. Two tiers of memory are impartial. The first request of a cycle settles the cache, and
then every request, of however many lines, only counts its lines and puts the missing ones on the
list of lines to be filled.

From two requests it is a short way to any number of them: whatever their order, each is answered
as if it came first, and nothing that is asked later can tell in which order they came
(`requests_of_a_cycle_commute`).
-/

namespace Accelerator

/-- Requests of one cycle take no notice of each other, in states with a property that requests
keep. -/
structure MemoryService.Impartial (μ : Type) [MemoryService μ] (P : μ → Prop) : Prop where
  kept : ∀ {m : μ} (request : MemoryRequest) (now : Nat), P m → P (access m request now).2
  /-- An earlier request has no influence on the answer. -/
  answer : ∀ {m : μ} (first second : MemoryRequest) (now : Nat), P m →
    (access (access m first now).2 second now).1 = (access m second now).1
  /-- It does not matter which request came first. -/
  state : ∀ {m : μ} (first second : MemoryRequest) (now : Nat), P m →
    (access (access m first now).2 second now).2 = (access (access m second now).2 first now).2

namespace MemoryService

variable {μ : Type} [MemoryService μ] {P : μ → Prop} {m : μ}

/-- A request that is made at a cycle. -/
def ask (m : μ) (asked : MemoryRequest × Nat) : Nat × μ := access m asked.1 asked.2

/-- Among the requests of a cycle each is answered as if it came first. -/
theorem Impartial.answers_session (impartial : Impartial μ P) (holds : P m) (now : Nat)
    (requests : List MemoryRequest) :
    (session ask m (requests.map (·, now))).1 =
      requests.map fun request => (ask m (request, now)).1 := by
  induction requests generalizing m with
  | nil => rfl
  | cons first rest ih =>
      have others : rest.map (fun request => (ask (ask m (first, now)).2 (request, now)).1) =
          rest.map fun request => (ask m (request, now)).1 :=
        List.map_congr_left fun second _ => impartial.answer first second now holds
      rw [List.map_cons, session_cons, ih (m := (ask m (first, now)).2)
        (impartial.kept first now holds), others, List.map_cons]

/-- The requests of a cycle leave the same state behind in any order. -/
theorem Impartial.session_perm (impartial : Impartial μ P) (holds : P m) (now : Nat)
    {requests requests' : List MemoryRequest} (perm : requests.Perm requests') :
    (session ask m (requests.map (·, now))).2 = (session ask m (requests'.map (·, now))).2 := by
  induction perm generalizing m with
  | nil => rfl
  | cons first _ ih => exact ih (m := (ask m (first, now)).2) (impartial.kept first now holds)
  | swap first second rest =>
      have swapped : (ask (ask m (second, now)).2 (first, now)).2 =
          (ask (ask m (first, now)).2 (second, now)).2 := impartial.state second first now holds
      simp only [List.map_cons, session_cons, swapped]
  | trans _ _ ih ih' => exact (ih holds).trans (ih' holds)

end MemoryService

namespace Hierarchy

variable {m : Hierarchy} {now : Nat}

/-- The state of the two tiers once the lines that missed earlier are filled. -/
def settle (m : Hierarchy) (now : Nat) : Hierarchy := { m with l2 := m.l2.settle now }

/-- The latency of a line, looked up in a settled cache. -/
def lineLatency (m : Hierarchy) (line : Nat) : Nat :=
  if m.l2.isResident line then m.l2.hitLatency else m.l2.hitLatency + m.hbm.latency

/-- What the look-up of a line leaves behind in a settled cache. -/
def touched (m : Hierarchy) (line : Nat) : Hierarchy where
  l2 := m.l2.noted line
  hbm := if m.l2.isResident line then m.hbm else { m.hbm with accesses := m.hbm.accesses + 1 }

/-! ## One line -/

theorem accessLine_eq (m : Hierarchy) (line now : Nat) :
    m.accessLine line now = ((m.settle now).lineLatency line, (m.settle now).touched line) := by
  unfold accessLine lineLatency touched
  rw [Cache.lookup_eq]
  cases resident : (m.l2.settle now).isResident line <;> simp [settle, resident]

@[simp] theorem lineLatency_touched (m : Hierarchy) (line other : Nat) :
    (m.touched line).lineLatency other = m.lineLatency other := by
  have resident : (m.touched line).l2.isResident other = m.l2.isResident other :=
    m.l2.isResident_noted line other
  have hit : (m.touched line).l2.hitLatency = m.l2.hitLatency := m.l2.hitLatency_noted line
  have latency : (m.touched line).hbm.latency = m.hbm.latency := by
    unfold touched
    dsimp only
    split <;> rfl
  rw [lineLatency, resident, hit, latency, lineLatency]

theorem touched_comm (m : Hierarchy) (line other : Nat) :
    (m.touched line).touched other = (m.touched other).touched line := by
  have lines := m.l2.noted_comm line other
  simp only [touched, lines, Cache.isResident_noted]
  cases m.l2.isResident line <;> cases m.l2.isResident other <;> rfl

/-! ## The lines of a request -/

/-- Every request touches some line. -/
theorem lines_ne_nil (m : Hierarchy) (request : MemoryRequest) : m.lines request ≠ [] := by
  have inside : request.addr ≤ request.addr + max request.bytes 1 - 1 := by omega
  have order := Nat.div_le_div_right (c := m.l2.lineSize) inside
  intro none
  have length := congrArg List.length none
  simp only [lines, List.length_range', List.length_nil] at length
  omega

theorem lines_congr {n : Hierarchy} (same : m.l2.lineSize = n.l2.lineSize)
    (request : MemoryRequest) : m.lines request = n.lines request := by
  rw [lines, lines, same]

/-- The lines of a request are touched one after the other. -/
def touchedAll (m : Hierarchy) (lines : List Nat) : Hierarchy := lines.foldl touched m

/-- The latency of the slowest line, and of `known` if that is larger. -/
def slowest (m : Hierarchy) (known : Nat) (lines : List Nat) : Nat :=
  lines.foldl (fun known line => max known (m.lineLatency line)) known

theorem slowest_touched (m : Hierarchy) (line known : Nat) (lines : List Nat) :
    (m.touched line).slowest known lines = m.slowest known lines := by
  simp only [slowest, lineLatency_touched]

theorem slowest_touchedAll (m : Hierarchy) (touching : List Nat) (known : Nat)
    (lines : List Nat) : (m.touchedAll touching).slowest known lines = m.slowest known lines := by
  induction touching generalizing m with
  | nil => rfl
  | cons line rest ih => exact (ih (m.touched line)).trans (slowest_touched m line known lines)

theorem settle_of_settledAt (settled : m.l2.SettledAt now) : m.settle now = m := by
  rw [settle, Cache.settle_of_settledAt settled]

theorem foldl_accessNext (settled : m.l2.SettledAt now) (known : Nat) (lines : List Nat) :
    lines.foldl (accessNext now) (known, m) = (m.slowest known lines, m.touchedAll lines) := by
  induction lines generalizing m known with
  | nil => rfl
  | cons line rest ih =>
      have here : accessNext now (known, m) line =
          (max known (m.lineLatency line), m.touched line) := by
        rw [accessNext, accessLine_eq, settle_of_settledAt settled]
      rw [List.foldl_cons, here, ih (m := m.touched line) (settled.noted line), slowest_touched]
      rfl

/-- A request settles the cache, and then touches its lines. -/
theorem access_eq (m : Hierarchy) (request : MemoryRequest) (now : Nat) :
    MemoryService.access m request now =
      (now + (m.settle now).slowest 0 (m.lines request),
        (m.settle now).touchedAll (m.lines request)) := by
  have settled : (m.settle now).l2.SettledAt now := m.l2.settledAt_settle now
  have opened : (m.lines request).foldl (accessNext now) (0, m) =
      (m.lines request).foldl (accessNext now) (0, m.settle now) := by
    rcases touching : m.lines request with _ | ⟨line, rest⟩
    · exact absurd touching (m.lines_ne_nil request)
    · have here : accessNext now (0, m) line = accessNext now (0, m.settle now) line := by
        rw [accessNext, accessNext, accessLine_eq, accessLine_eq, settle_of_settledAt settled]
      rw [List.foldl_cons, List.foldl_cons, here]
  show (now + (m.accessLines now (m.lines request)).1,
    (m.accessLines now (m.lines request)).2) = _
  rw [accessLines, opened, foldl_accessNext settled]

/-! ## What requests leave alone -/

theorem ordered_touchedAll (ordered : m.l2.Ordered) (lines : List Nat) :
    (m.touchedAll lines).l2.Ordered := by
  induction lines generalizing m with
  | nil => exact ordered
  | cons line rest ih => exact ih (m := m.touched line) (ordered.noted line)

theorem settledAt_touchedAll (settled : m.l2.SettledAt now) (lines : List Nat) :
    (m.touchedAll lines).l2.SettledAt now := by
  induction lines generalizing m with
  | nil => exact settled
  | cons line rest ih => exact ih (m := m.touched line) (settled.noted line)

theorem lineSize_touchedAll (m : Hierarchy) (lines : List Nat) :
    (m.touchedAll lines).l2.lineSize = m.l2.lineSize := by
  induction lines generalizing m with
  | nil => rfl
  | cons line rest ih => exact (ih (m.touched line)).trans (m.l2.lineSize_noted line)

theorem lineSize_settle (m : Hierarchy) (now : Nat) :
    (m.settle now).l2.lineSize = m.l2.lineSize := m.l2.lineSize_settle now

theorem touchedAll_touched (m : Hierarchy) (line : Nat) (lines : List Nat) :
    (m.touched line).touchedAll lines = (m.touchedAll lines).touched line := by
  induction lines generalizing m with
  | nil => rfl
  | cons other rest ih =>
      show ((m.touched line).touched other).touchedAll rest =
        ((m.touched other).touchedAll rest).touched line
      rw [touched_comm]
      exact ih (m.touched other)

theorem touchedAll_comm (m : Hierarchy) (first second : List Nat) :
    (m.touchedAll first).touchedAll second = (m.touchedAll second).touchedAll first := by
  induction first generalizing m with
  | nil => rfl
  | cons line rest ih =>
      show ((m.touched line).touchedAll rest).touchedAll second =
        ((m.touchedAll second).touched line).touchedAll rest
      rw [← touchedAll_touched]
      exact ih (m.touched line)

/-! ## Impartiality -/

/-- The lines that will be filled next form a set. -/
def Ordered (m : Hierarchy) : Prop := m.l2.Ordered

theorem ordered_create (config : MemoryConfig) : (create config).Ordered :=
  Cache.ordered_create ..

/-- The second request of a cycle finds the cache settled, with the lines of the first touched. -/
theorem access_access (m : Hierarchy) (first second : MemoryRequest) (now : Nat) :
    MemoryService.access (MemoryService.access m first now).2 second now =
      (now + (m.settle now).slowest 0 (m.lines second),
        ((m.settle now).touchedAll (m.lines first)).touchedAll (m.lines second)) := by
  have settled : (m.settle now).l2.SettledAt now := m.l2.settledAt_settle now
  have lines : ((m.settle now).touchedAll (m.lines first)).lines second = m.lines second :=
    lines_congr ((lineSize_touchedAll _ _).trans (m.lineSize_settle now)) second
  rw [access_eq m first now, access_eq, settle_of_settledAt (settledAt_touchedAll settled _), lines,
    slowest_touchedAll]

/-- Two tiers of memory are impartial, whatever their configuration and contents. -/
theorem impartial_of_kept {P : Hierarchy → Prop}
    (kept : ∀ {m : Hierarchy} (request : MemoryRequest) (now : Nat), P m →
      P (MemoryService.access m request now).2) : MemoryService.Impartial Hierarchy P where
  kept := kept
  answer first second now _ := by rw [access_access, access_eq]
  state first second now _ := by
    rw [access_access, access_access]
    exact touchedAll_comm ..

theorem impartial : MemoryService.Impartial Hierarchy Ordered :=
  impartial_of_kept fun request now ordered => by
    rw [access_eq]
    exact ordered_touchedAll (Cache.Ordered.settle ordered now) _

/-- However the requests of a cycle are ordered, each has the answer that it would have had alone,
and they leave the same two tiers behind, which answer the same from then on. -/
theorem requests_of_a_cycle_commute (m : Hierarchy) (now : Nat)
    (requests requests' : List MemoryRequest) (perm : requests.Perm requests') :
    let (answers, after) := session MemoryService.ask m (requests.map (·, now))
    let (answers', after') := session MemoryService.ask m (requests'.map (·, now))
    answers = requests.map (fun request => (MemoryService.ask m (request, now)).1) ∧
      answers' = requests'.map (fun request => (MemoryService.ask m (request, now)).1) ∧
      after = after' ∧
      ∀ later : List (MemoryRequest × Nat),
        session MemoryService.ask after later = session MemoryService.ask after' later := by
  have impartial : MemoryService.Impartial Hierarchy fun _ => True :=
    impartial_of_kept fun _ _ _ => trivial
  have same := impartial.session_perm (m := m) trivial now perm
  refine ⟨impartial.answers_session trivial now requests,
    impartial.answers_session trivial now requests', same, fun later => ?_⟩
  exact congrArg (session MemoryService.ask · later) same

/-- Room for two lines, of which the third one that missed before has driven out the first: a
request for two lines, one for the evicted line and one that overlaps the first, forwards and
backwards. -/
theorem requests_of_a_cycle_commute_when_full :
    let m := (MemoryService.ask (create ⟨10, 100, 2, 64⟩) (⟨0, 129, .load⟩, 1)).2
    let requests : List MemoryRequest := [⟨64, 128, .load⟩, ⟨0, 4, .store⟩, ⟨120, 16, .load⟩]
    requests.Perm requests.reverse ∧
      (session MemoryService.ask m (requests.map (·, 2))).1 = [12, 112, 12] ∧
      (session MemoryService.ask m (requests.reverse.map (·, 2))).1 = [12, 112, 12] ∧
      (session MemoryService.ask m (requests.map (·, 2))).2 =
        (session MemoryService.ask m (requests.reverse.map (·, 2))).2 := by
  intro m requests
  have perm := (List.reverse_perm requests).symm
  have alone : requests.map (fun request => (MemoryService.ask m (request, 2)).1) =
      [12, 112, 12] := by decide +kernel
  have alone' : requests.reverse.map (fun request => (MemoryService.ask m (request, 2)).1) =
      [12, 112, 12] := by decide +kernel
  obtain ⟨answers, answers', same, -⟩ :=
    requests_of_a_cycle_commute m 2 requests requests.reverse perm
  exact ⟨perm, answers.trans alone, answers'.trans alone', same⟩

end Hierarchy

end Accelerator
