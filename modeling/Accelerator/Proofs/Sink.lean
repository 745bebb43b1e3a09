import Accelerator.Trace.Sink

/-!
# Laws of sinks

That a log is flushed now and then makes no difference to what will have gone out in the end. A
sink may be given the same events in another order; then it has recorded the same, up to that
order.
-/

namespace Accelerator

/-! ## Flushing -/

namespace LineLog

/-- What is in the buffer goes out before what follows it, whenever it goes out. -/
theorem flush_add (log : LineLog) (piece : String) :
    (log.flush.add piece).flush = (log.add piece).flush := by
  rcases log with ⟨accepts, written, waiting, failed⟩
  cases accepts with
  | false => rfl
  | true =>
      cases failed with
      | true => simp [flush, add]
      | false =>
          by_cases short : piece.utf8ByteSize ≤ bufferSize <;>
            by_cases fits : waiting.utf8ByteSize + piece.utf8ByteSize ≤ bufferSize <;>
            simp [flush, add, short, fits, String.append_assoc]

@[simp] theorem flush_flush (log : LineLog) : log.flush.flush = log.flush := by
  rcases log with ⟨accepts, written, waiting, failed⟩
  cases accepts <;> simp [flush]

/-- Logs that are the same once flushed are so after every piece. -/
theorem flush_add_congr {log other : LineLog} (same : log.flush = other.flush) (piece : String) :
    (log.add piece).flush = (other.add piece).flush := by
  rw [← flush_add, same, flush_add]

theorem flush_record_congr {log other : LineLog} (same : log.flush = other.flush)
    (event : TraceEvent) : (log.record event).flush = (other.record event).flush := by
  unfold record
  generalize Json.pieces event.toTree ++ ["\n"] = pieces
  induction pieces generalizing log other with
  | nil => exact same
  | cons piece rest ih => exact ih (flush_add_congr same piece)

end LineLog

namespace Sink

/-- Two sinks of which the same will have gone out. -/
theorem flush_eq_cases {s t : Sink} (same : s.flush = t.flush) :
    s = t ∨ ∃ log other, s = .log log ∧ t = .log other ∧ log.flush = other.flush := by
  cases s <;> cases t <;> simp_all [flush]

theorem flush_record_congr {s t : Sink} (same : s.flush = t.flush) (event : TraceEvent) :
    (s.record event).flush = (t.record event).flush := by
  rcases flush_eq_cases same with rfl | ⟨log, other, rfl, rfl, equal⟩
  · rfl
  · exact congrArg Sink.log (LineLog.flush_record_congr equal event)

theorem flush_foldl_record_congr {s t : Sink} (same : s.flush = t.flush)
    (events : List TraceEvent) :
    (events.foldl record s).flush = (events.foldl record t).flush := by
  induction events generalizing s t with
  | nil => exact same
  | cons event rest ih => exact ih (flush_record_congr same event)

theorem flush_recordStages_congr {s t : Sink} (same : s.flush = t.flush)
    (events : List TraceEvent) : (s.recordStages events).flush = (t.recordStages events).flush := by
  have wants : s.wantsStageEvents = t.wantsStageEvents := by
    rcases flush_eq_cases same with rfl | ⟨log, other, rfl, rfl, -⟩ <;> rfl
  unfold recordStages
  rw [wants]
  split
  · exact flush_foldl_record_congr same events
  · exact same

@[simp] theorem flush_flush (s : Sink) : s.flush.flush = s.flush := by
  cases s <;> simp [flush]

end Sink

/-! ## Other orders of events -/

namespace Sink

/-- The sink once it has been given events one after the other, and has been flushed wherever no
event is given. -/
def replay (s : Sink) (entries : List (Option TraceEvent)) : Sink :=
  entries.foldl (fun s entry => entry.elim s.flush s.record) s

theorem replay_append (s : Sink) (entries others : List (Option TraceEvent)) :
    s.replay (entries ++ others) = (s.replay entries).replay others :=
  List.foldl_append

/-- What a sink listens to does not change. -/
theorem wantsStageEvents_replay (s : Sink) (entries : List (Option TraceEvent)) :
    (s.replay entries).wantsStageEvents = s.wantsStageEvents := by
  induction entries generalizing s with
  | nil => rfl
  | cons entry rest ih =>
      refine (ih _).trans ?_
      cases entry <;> cases s <;> rfl

theorem record_replay (s : Sink) (entries : List (Option TraceEvent)) (e : TraceEvent) :
    (s.replay entries).record e = s.replay (entries ++ [some e]) := by
  rw [replay_append]
  rfl

/-- The events of a stage are events that a sink is given, if it wants them. -/
theorem recordStages_replay (s : Sink) (entries : List (Option TraceEvent))
    (events : List TraceEvent) :
    (s.replay entries).recordStages events =
      s.replay (entries ++ if s.wantsStageEvents then events.map some else []) := by
  rw [recordStages, wantsStageEvents_replay]
  split
  · rw [replay_append, replay, replay, List.foldl_map]
    rfl
  · rw [List.append_nil]

/-- A sink that keeps events has kept those that it was given. -/
theorem replay_keep (stageEvents : Bool) (events : Array TraceEvent)
    (entries : List (Option TraceEvent)) :
    (keep stageEvents events).replay entries =
      keep stageEvents (events ++ (entries.filterMap id).toArray) := by
  induction entries generalizing events with
  | nil => simp [replay]
  | cons entry rest ih =>
      cases entry with
      | none => simpa [replay, flush] using ih events
      | some e => simpa [replay, record] using ih (events.push e)

/-- Both sinks have started out as `base` and have been given the same events and flushes, each in
an order of its own. -/
def Shuffled (base s t : Sink) : Prop :=
  ∃ entries entries', entries.Perm entries' ∧ s = base.replay entries ∧ t = base.replay entries'

variable {base s t : Sink}

theorem shuffled_refl (base : Sink) : Shuffled base base base := ⟨[], [], .refl _, rfl, rfl⟩

theorem Shuffled.replay (shuffled : Shuffled base s t) {entries entries' : List (Option TraceEvent)}
    (same : entries.Perm entries') : Shuffled base (s.replay entries) (t.replay entries') := by
  obtain ⟨before, before', perm, rfl, rfl⟩ := shuffled
  refine ⟨before ++ entries, before' ++ entries', perm.append same, ?_, ?_⟩
  · rw [replay_append]
  · rw [replay_append]

theorem Shuffled.recordStages (shuffled : Shuffled base s t) {events events' : List TraceEvent}
    (same : events.Perm events') :
    Shuffled base (s.recordStages events) (t.recordStages events') := by
  obtain ⟨entries, entries', perm, rfl, rfl⟩ := shuffled
  refine ⟨_, _, perm.append ?_, recordStages_replay .., recordStages_replay ..⟩
  split
  · exact same.map some
  · exact .refl _

/-- Sinks that keep events have kept the same, each in an order of its own. -/
theorem Shuffled.events_perm (shuffled : Shuffled base s t) :
    s.events.toList.Perm t.events.toList := by
  obtain ⟨entries, entries', perm, rfl, rfl⟩ := shuffled
  cases base with
  | keep stageEvents events =>
      rw [replay_keep, replay_keep]
      simpa [Sink.events] using (perm.filterMap id).append_left events.toList
  | discard =>
      have nothing : ∀ entries, (discard.replay entries).events = #[] := by
        intro entries
        induction entries with
        | nil => rfl
        | cons entry rest ih => cases entry <;> exact ih
      rw [nothing, nothing]
  | log lines =>
      have nothing : ∀ entries lines, ((log lines).replay entries).events = #[] := by
        intro entries
        induction entries with
        | nil => exact fun _ => rfl
        | cons entry rest ih => cases entry <;> exact fun lines => ih _
      rw [nothing, nothing]

end Sink

end Accelerator
