import Accelerator.Proofs.Config
import Accelerator.Proofs.Document.Json.Printer
import Accelerator.Proofs.Sink

/-!
# Events and configurations survive JSON

An event is written as a table of the fields that it has, and is read from its text; so is every
configuration. The text of an event is a single line, so that a log of events is read back line by
line, whatever way its text has gone through the buffer.
-/

namespace Accelerator

/-- A field that may be absent is left out then, and read as absent. -/
theorem fieldOr_map {α : Type} {read : Tree → Option α} {write : α → Tree} {field : Option α}
    (each : ∀ a, field = some a → read (write a) = some a)
    (present : ∀ a, (write a).isNull = false) :
    fieldOr none (Tree.optional? read) (field.map write) = some field := by
  cases field with
  | none => rfl
  | some a =>
      rw [Option.map_some, fieldOr, Tree.optional?_of_not_null (present a), each a rfl]
      rfl

namespace TraceEvent

/-- All numbers of the event are words. -/
structure Fits (e : TraceEvent) : Prop where
  cycle : e.cycle < wordBound
  unit : e.unit < wordBound
  group : e.group < wordBound
  wavefront : ∀ n, e.wavefront = some n → n < wordBound
  producedAt : ∀ n, e.producedAt = some n → n < wordBound

/-- Does the event have a field of this name? -/
def has (e : TraceEvent) (name : String) : Bool :=
  match name with
  | "wavefront" => e.wavefront.isSome
  | "stage" => e.stage.isSome
  | "produced_at" => e.producedAt.isSome
  | _ => fieldNames.contains name

variable {e : TraceEvent}

/-- An event is written with the fields that it has, in the order of their declaration. -/
theorem names_toTree (e : TraceEvent) :
    e.toTree.entries.map Prod.fst = fieldNames.filter e.has := by
  rcases e with ⟨_, _, _, _ | _, _ | _, _, _ | _⟩ <;> rfl

theorem lookup_toTree (e : TraceEvent) :
    (fieldNames.map fun name => e.toTree.entries.lookup name) =
      [some (.natural e.cycle), some (.natural e.unit), some (.natural e.group),
        e.wavefront.map .natural, e.stage.map fun s => .text s.name, some (.text e.action.name),
        e.producedAt.map .natural] := by
  rcases e with ⟨_, _, _, _ | _, _ | _, _, _ | _⟩ <;> rfl

theorem stage_variant?_name (stage : Stage) :
    Tree.variant? .json Stage.all Stage.name (.text stage.name) = some stage :=
  Tree.variant?_name (by cases stage <;> decide) (by cases stage <;> decide)

theorem action_variant?_name (action : Action) :
    Tree.variant? .json Action.all Action.name (.text action.name) = some action :=
  Tree.variant?_name (by cases action <;> decide) (by cases action <;> decide)

/-- An event is read from the tree that it is written as. -/
theorem ofTree?_toTree (fits : e.Fits) : ofTree? e.toTree = some e := by
  have distinct : (e.toTree.entries.map Prod.fst).Nodup := by
    rw [names_toTree]
    exact List.Nodup.filter _ (by decide)
  have own : Tree.HasFields fieldNames e.toTree.entries e.toTree.entries := by
    refine Tree.hasFields_refl fun field member => ?_
    have named := List.mem_map_of_mem (f := Prod.fst) member
    rw [names_toTree] at named
    exact List.mem_of_mem_filter named
  have found : e.toTree.fields? .json fieldNames false = _ :=
    (Tree.fields?_of_hasFields own distinct).trans (congrArg some (lookup_toTree e))
  have wavefront := fieldOr_map (fun n same => Tree.natural?_natural (fits.wavefront n same))
    fun _ => rfl
  have producedAt := fieldOr_map (fun n same => Tree.natural?_natural (fits.producedAt n same))
    fun _ => rfl
  have stage : fieldOr none (Tree.optional? (Tree.variant? .json Stage.all Stage.name))
      (e.stage.map fun s => .text s.name) = some e.stage :=
    fieldOr_map (fun s _ => stage_variant?_name s) fun _ => rfl
  rw [ofTree?, found]
  simp only [Option.bind_eq_bind, Option.bind_some, required, Tree.natural?_natural fits.cycle,
    Tree.natural?_natural fits.unit, Tree.natural?_natural fits.group, wavefront, stage,
    action_variant?_name, producedAt]
  rfl

theorem written_toTree (e : TraceEvent) : e.toTree.written = e.toTree := by
  rcases e with ⟨_, _, _, _ | _, _ | _, _, _ | _⟩ <;> simp [toTree, entry?]

/-- The event that a text denotes. -/
def parse? (text : String) : Option TraceEvent := (Json.parse? text).bind ofTree?

theorem parse?_render (fits : e.Fits) : parse? (Json.render e.toTree) = some e := by
  rw [parse?, Json.parse?_render, written_toTree]
  exact ofTree?_toTree fits

/-- The events in a text with one event on each line. -/
def ofLines? (text : String) : Option (List TraceEvent) :=
  (text.toList.splitOn '\n').dropLast.mapM fun line => parse? (.ofList line)

end TraceEvent

/-! ## Logs -/

namespace LineLog

/-- A log that is open has taken a text, of which some may still wait in the buffer. -/
structure Holds (text : String) (log : LineLog) : Prop where
  accepts : log.accepts = true
  failed : log.failed = false
  taken : log.written ++ log.waiting = text

variable {text : String} {log : LineLog}

theorem Holds.flush (holds : log.Holds text) : log.flush.Holds text := by
  obtain ⟨accepts, failed, rfl⟩ := holds
  simp only [LineLog.flush, accepts, if_true]
  exact ⟨rfl, failed, by simp⟩

theorem Holds.text_eq (holds : log.Holds text) : log.text = text := by
  obtain ⟨accepts, -, rfl⟩ := holds
  simp [LineLog.text, LineLog.flush, accepts]

/-- A piece is taken whether or not it finds room in the buffer. -/
theorem Holds.add (holds : log.Holds text) (piece : String) :
    (log.add piece).Holds (text ++ piece) := by
  obtain ⟨accepts, failed, rfl⟩ := holds
  simp only [LineLog.add, failed, Bool.false_eq_true, if_false, accepts, if_true]
  split
  · exact ⟨rfl, rfl, by simp [String.append_assoc]⟩
  · simp only [LineLog.flush, accepts, if_true]
    exact ⟨rfl, failed, rfl⟩

theorem Holds.addAll (holds : log.Holds text) (pieces : List String) :
    (pieces.foldl LineLog.add log).Holds (text ++ String.join pieces) := by
  induction pieces generalizing text log with
  | nil => simpa using holds
  | cons piece rest ih =>
      have taken := ih (holds.add piece)
      rwa [String.append_assoc, ← String.join_cons] at taken

/-- An event as a line. -/
def line (e : TraceEvent) : String := Json.render e.toTree ++ "\n"

theorem Holds.record (holds : log.Holds text) (e : TraceEvent) :
    (log.record e).Holds (text ++ line e) := by
  have taken := holds.addAll (Json.pieces e.toTree ++ ["\n"])
  have same : String.join (Json.pieces e.toTree ++ ["\n"]) = line e := by
    simp [line, Json.render]
  rwa [same] at taken

end LineLog

/-- A log that is open takes every event as a line, flushed in between or not. -/
theorem Sink.replay_log {text : String} {log : LineLog} (holds : log.Holds text)
    (entries : List (Option TraceEvent)) : ∃ lines : LineLog, (Sink.log log).replay entries = .log lines ∧
      lines.Holds (text ++ String.join ((entries.filterMap id).map LineLog.line)) := by
  induction entries generalizing text log with
  | nil => exact ⟨log, rfl, by simpa using holds⟩
  | cons entry rest ih =>
      cases entry with
      | none => exact ih holds.flush
      | some e =>
          obtain ⟨lines, after, taken⟩ := ih (holds.record e)
          exact ⟨lines, after, by simpa [String.append_assoc] using taken⟩

/-- Lines that end with line breaks, and have none inside, are what is between the line breaks. -/
theorem splitOn_lines (events : List TraceEvent) :
    (String.join (events.map LineLog.line)).toList.splitOn '\n' =
      events.map (fun e => (Json.render e.toTree).toList) ++ [[]] := by
  induction events with
  | nil => simp
  | cons e rest ih =>
      rw [List.map_cons, String.join_cons, String.toList_append, LineLog.line, String.toList_append,
        List.append_assoc]
      have single := Json.newline_not_mem_render e.toTree
      simpa [List.splitOn_append_cons_self_of_not_mem single] using ih

theorem TraceEvent.ofLines?_lines {events : List TraceEvent} (fits : ∀ e ∈ events, e.Fits) :
    ofLines? (String.join (events.map LineLog.line)) = some events := by
  rw [ofLines?, splitOn_lines, List.dropLast_concat]
  induction events with
  | nil => rfl
  | cons e rest ih =>
      rw [List.forall_mem_cons] at fits
      simp [parse?_render fits.1, ih fits.2]

/-! ## Everything is read back -/

theorem Tree.written_ofOption (field : Option Nat) :
    (Tree.ofOption .natural field).written = .ofOption .natural field := by
  cases field <;> simp [Tree.ofOption]

theorem SimConfig.written_toTree (c : SimConfig) : c.toTree.written = c.toTree := by
  simp [toTree, DeviceConfig.toTree, MemoryConfig.toTree, RunConfig.toTree, KernelConfig.toTree,
    Dim3.toArray, Tree.written_ofOption, Function.comp_def]

/-- A configuration is read from its own text. -/
theorem SimConfig.ofTree?_render {c : SimConfig} (fits : c.Fits wordBound) :
    (Json.parse? (Json.render c.toTree)).bind (ofTree? .json) = some c := by
  rw [Json.parse?_render, written_toTree]
  exact ofTree?_toTree fits

/-- Events and configurations are read from their texts. An event has on its line exactly the fields
that it has, and a log that is given events, and flushed now and then, is read line by line. -/
theorem Json.read_back :
    (∀ e : TraceEvent, e.Fits →
      TraceEvent.parse? (render e.toTree) = some e ∧
        (∃ entries, parse? (render e.toTree) = some (.table entries) ∧
          entries.map Prod.fst = TraceEvent.fieldNames.filter e.has) ∧
        Visible (render e.toTree).toList) ∧
    (∀ c : SimConfig, c.Fits wordBound →
      (parse? (render c.toTree)).bind (SimConfig.ofTree? .json) = some c) ∧
    ∀ entries : List (Option TraceEvent), (∀ e, some e ∈ entries → e.Fits) →
      ∃ lines, (Sink.log {}).replay entries = .log lines ∧
        lines.text.toList.splitOn '\n' =
          (entries.filterMap id).map (fun e => (render e.toTree).toList) ++ [[]] ∧
        TraceEvent.ofLines? lines.text = some (entries.filterMap id) := by
  refine ⟨fun e fits => ⟨TraceEvent.parse?_render fits, ?_, ?_⟩, fun c => SimConfig.ofTree?_render,
    fun entries fits => ?_⟩
  · refine ⟨e.toTree.entries, ?_, e.names_toTree⟩
    rw [parse?_render, TraceEvent.written_toTree]
    rfl
  · rw [toList_render]
    exact visible_pieces e.toTree
  · have opened : LineLog.Holds "" {} := ⟨rfl, rfl, rfl⟩
    obtain ⟨lines, after, holds⟩ := Sink.replay_log opened entries
    have taken : lines.text = String.join ((entries.filterMap id).map LineLog.line) := by
      simpa using holds.text_eq
    refine ⟨lines, after, ?_, ?_⟩
    · rw [taken, splitOn_lines]
    · rw [taken]
      refine TraceEvent.ofLines?_lines fun e member => fits e ?_
      simpa using member

/-- Two events, with a flush in between: the log has two lines, and they are the events. -/
theorem Json.read_back_of_two_events :
    let issue : TraceEvent :=
      { cycle := 4, unit := 0, group := 2, wavefront := some 5, stage := some .decode,
        action := .memoryIssue, producedAt := some 3 }
    let done : TraceEvent := { cycle := 9, unit := 0, group := 2, action := .complete }
    TraceEvent.parse? (render issue.toTree) = some issue ∧
      (parse? (render ({} : SimConfig).toTree)).bind (SimConfig.ofTree? .json) =
        some ({} : SimConfig) ∧
      ∃ lines, (Sink.log {}).replay [some issue, none, some done] = .log lines ∧
        TraceEvent.ofLines? lines.text = some [issue, done] := by
  intro issue done
  have issue_fits : issue.Fits := {
    cycle := by decide
    unit := by decide
    group := by decide
    wavefront := by simp [issue, wordBound]
    producedAt := by simp [issue, wordBound] }
  have done_fits : done.Fits := {
    cycle := by decide
    unit := by decide
    group := by decide
    wavefront := nofun
    producedAt := nofun }
  have config_fits : SimConfig.Fits wordBound {} := {
    device := ⟨by decide, by decide, by decide, by decide⟩
    memory := ⟨by decide, by decide, by decide, by decide⟩
    run := ⟨nofun, by decide⟩
    kernel := ⟨⟨by decide, by decide, by decide⟩, ⟨by decide, by decide, by decide⟩⟩ }
  obtain ⟨events, configs, logs⟩ := Json.read_back
  obtain ⟨lines, after, -, split⟩ := logs [some issue, none, some done] fun e member => by
    simp only [List.mem_cons, Option.some.injEq, reduceCtorEq, List.not_mem_nil, or_false,
      false_or] at member
    rcases member with rfl | rfl
    · exact issue_fits
    · exact done_fits
  exact ⟨(events issue issue_fits).1, configs {} config_fits, lines, after, split⟩

end Accelerator
