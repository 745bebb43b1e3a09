import Accelerator.CommandLine.Options
import Accelerator.Config.Load
import Accelerator.Device.Run

/-!
# The command

The command loads a configuration, merges the options into it, runs its kernel on its device, and
reports how the run has ended. It can also write every event of the run to a file.
-/

namespace Accelerator.CommandLine

/-- Why the command gives up. -/
inductive Failure where
  /-- The configuration file cannot be used. -/
  | config (path : String)
  /-- There is no place for the events. -/
  | trace (path : String)
  | error (cause : Error)
deriving DecidableEq, Inhabited

def Failure.message : Failure → String
  | config path => "loading config " ++ path
  | trace path => "creating trace file " ++ path
  | error cause => cause.message

/-- How the command ends. -/
inductive Ending where
  /-- With a report of several lines. -/
  | report (lines : List String)
  | failure (cause : Failure)
  /-- The arguments are no command line. -/
  | usage
deriving DecidableEq, Inhabited

/-- The status that the command ends with. A fault is not an ending that the command has chosen. -/
def Ending.status : Ending → Nat
  | report _ => 0
  | failure (.error (.fault _)) => 101
  | failure _ => 1
  | usage => 2

/-! ## Reports -/

/-- A number in at least `width` columns, at their right end. -/
def alignRight (width n : Nat) : String :=
  let digits := toString n
  String.ofList (List.replicate (width - digits.length) ' ') ++ digits

/-- How the work-groups of a launch stand at the end of a run, and what it took. -/
def summaryLine {ι μ π : Type} (job : Job ι μ π) (outcome : Outcome) : String :=
  let stats := outcome.stats
  let launch := job.launch
  let ending := if outcome.isCompleted then "completed" else "suspended"
  " | ".intercalate [
    "Run " ++ ending ++ ": " ++ toString stats.cycles ++ " cycles",
    toString launch.doneCount ++ "/" ++ toString launch.groupCount ++ " work-groups done",
    toString job.device.busy.size ++ " running",
    toString launch.pending.length ++ " pending",
    toString stats.instructions ++ " instructions",
    toString stats.requests ++ " memory requests"]

/-- How long each unit was at work. -/
def unitLines (stats : RunStats) : List String :=
  stats.busyCycles.mapIdx fun unit cycles =>
    "  cu " ++ alignRight 3 unit ++ ": " ++ toString cycles ++ " busy cycles"

/-! ## Running -/

/-- The kernel of a configuration, on a device of that configuration. -/
def prepare (config : SimConfig) (sink : Sink) :
    Except Error (Job Program MemoryModel Placer) := do
  config.device.validate
  let launch ← NdRange.create 0 0 config.kernel.name config.kernel.globalSize
    config.kernel.localSize config.device.wavefrontSize
  let device ← Device.ofConfig 0 config
  return { device := device.withSink sink, launch }

/-- Run a job as far as a configuration says. -/
def runJob [Sums] (config : SimConfig) (job : Job Program MemoryModel Placer) :
    Except Error Outcome × Job Program MemoryModel Placer :=
  (Job.runWithin config.run.maxCycles).outcome job

/-- How a run ends for the command. -/
def ending (result : Except Error Outcome × Job Program MemoryModel Placer) : Ending :=
  match result with
  | (.ok outcome, job) => .report (summaryLine job outcome :: unitLines outcome.stats)
  | (.error cause, _) => .failure (.error cause)

variable {m : Type → Type} [Monad m]

/-- The configuration that a run goes by: that of the file, if there is one, with the options merged
into it. -/
def configure (files : Files m) (options : Options) : m (Except Failure SimConfig) := do
  match options.config with
  | none => return .ok (options.override {})
  | some path =>
    match ← SimConfig.load files path with
    | .ok config => return .ok (options.override config)
    | .error _ => return .error (.config path)

/-- Run a job, and write its events to a file. -/
def runTraced [Sums] (files : Files m) (config : SimConfig) (path : String)
    (job : Job Program MemoryModel Placer) : m Ending := do
  if ← files.create path then
    let result := runJob config job
    match result.2.device.sink with
    | .log lines => let _ ← files.write path lines.text
    | _ => pure ()
    return ending result
  else return .failure (.trace path)

/-- Run what a configuration describes. -/
def runConfig [Sums] (files : Files m) (config : SimConfig) (trace : Option String) : m Ending := do
  match prepare config (if trace.isSome then .log {} else .discard) with
  | .error cause => return .failure (.error cause)
  | .ok job =>
    match trace with
    | none => return ending (runJob config job)
    | some path => runTraced files config path job

/-- The whole command. -/
def run [Sums] (files : Files m) (arguments : List String) : m Ending := do
  match Options.parse? arguments with
  | none => return .usage
  | some options =>
    match ← configure files options with
    | .error cause => return .failure cause
    | .ok config => runConfig files config options.trace

end Accelerator.CommandLine
