import Accelerator.Document.Json.Printer
import Accelerator.Trace.Event

/-!
# Where events go

A sink takes the events of a device. It may want every event, or only dispatches and completions, or
none; and it never stops what it listens to.

A `LineLog` writes each event as one line of JSON. Text goes out through a buffer: a piece that finds
no room first sends what is waiting on its way. Where nothing can be written, the first failure ends
the log, and later events are dropped.
-/

namespace Accelerator

/-- How many bytes a log holds back before it writes them out. -/
def bufferSize : Nat := 8192

/-- A text being written, one event a line. -/
structure LineLog where
  /-- Whatever the log is written to takes text. -/
  accepts : Bool := true
  /-- What has been written out. -/
  written : String := ""
  /-- What waits in the buffer. -/
  waiting : String := ""
  /-- Nothing more is recorded. -/
  failed : Bool := false
deriving Inhabited

namespace LineLog

/-- Write out what waits. Where this fails the text keeps waiting. -/
def flush (log : LineLog) : LineLog :=
  if log.accepts then { log with written := log.written ++ log.waiting, waiting := "" } else log

/-- Add one piece of text. A piece that finds no room in the buffer has the buffer written out
first. -/
def add (log : LineLog) (piece : String) : LineLog :=
  if log.failed then log
  else if log.waiting.utf8ByteSize + piece.utf8ByteSize ≤ bufferSize then
    { log with waiting := log.waiting ++ piece }
  else if log.accepts then
    { log.flush with waiting := piece }
  else
    { log with failed := true }

/-- Write an event as a line. -/
def record (log : LineLog) (e : TraceEvent) : LineLog :=
  (Json.pieces e.toTree ++ ["\n"]).foldl add log

/-- Everything recorded, once the log is closed. -/
def text (log : LineLog) : String := log.flush.written

end LineLog

/-- What takes the events of a device. -/
inductive Sink where
  /-- Drops every event. -/
  | discard
  /-- Keeps events, with or without those of single stages. -/
  | keep (stageEvents : Bool) (events : Array TraceEvent)
  | log (lines : LineLog)
deriving Inhabited

namespace Sink

/-- A sink that keeps every event. -/
def keepAll : Sink := .keep true #[]

/-- A sink that keeps dispatches and completions. -/
def keepDispatches : Sink := .keep false #[]

/-- Events of single stages are wanted. Dispatches and completions are always recorded. -/
def wantsStageEvents : Sink → Bool
  | discard => false
  | keep stageEvents _ => stageEvents
  | log _ => true

def record : Sink → TraceEvent → Sink
  | discard, _ => discard
  | keep stageEvents events, e => keep stageEvents (events.push e)
  | log lines, e => log (lines.record e)

/-- Record the events of single stages, if they are wanted. -/
def recordStages (sink : Sink) (events : List TraceEvent) : Sink :=
  if sink.wantsStageEvents then events.foldl record sink else sink

def flush : Sink → Sink
  | log lines => log lines.flush
  | sink => sink

/-- The events that are kept, in the order in which they were recorded. -/
def events : Sink → Array TraceEvent
  | keep _ events => events
  | _ => #[]

/-- The same sink, without the events kept so far. -/
def clear : Sink → Sink
  | keep stageEvents _ => keep stageEvents #[]
  | sink => sink

end Sink

end Accelerator
