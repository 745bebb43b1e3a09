import Accelerator.Config.Basic
import Accelerator.SizeList

/-!
# Command-line options

Every option is given at most once. An option with a value takes it from the same argument, after an
equals sign, or from the next one, which then must not look like an option. Two options have a letter,
and letters can be run together.

The arguments are read one after the other. In between it is known which option still waits for its
value.
-/

namespace Accelerator

/-- What the arguments of a command line say. -/
structure Options where
  config : Option String := none
  computeUnits : Option Nat := none
  streamCores : Option Nat := none
  wavefrontSize : Option Nat := none
  placement : Option PlacementPolicy := none
  globalSize : Option Dim3 := none
  localSize : Option Dim3 := none
  maxCycles : Option Nat := none
  trace : Option String := none
  live : Bool := false
  debug : Bool := false
deriving DecidableEq, Inhabited

namespace Options

/-! ## Values -/

/-- Set what is not set yet. -/
def once {α : Type} (old new : Option α) : Option (Option α) :=
  match old with
  | some _ => none
  | none => new.map some

def word? (value : String) : Option Nat := (readNatural wordBound value.toList).toOption

/-- A number below 2^32. It may have a sign of either kind as long as it is not negative. -/
def count? (value : String) : Option Nat :=
  match value.toList with
  | ['-'] => none
  | '-' :: digits =>
    match readDigits countBound 0 digits with
    | .ok 0 => some 0
    | _ => none
  | cs => (readNatural countBound cs).toOption

def path? (value : String) : Option String := if value.isEmpty then none else some value

def placement? (value : String) : Option PlacementPolicy :=
  PlacementPolicy.all.find? (·.name == value)

def sizes? (value : String) : Option Dim3 := (SizeList.parse value).toOption

/-- The names of the options that take a value. -/
def valueNames : List String :=
  ["config", "compute-units", "stream-cores", "wavefront-size", "placement", "global-size",
    "local-size", "max-cycles", "trace"]

/-- Give an option its value. -/
def setValue (o : Options) (name value : String) : Option Options :=
  match name with
  | "config" => return { o with config := ← once o.config (path? value) }
  | "compute-units" => return { o with computeUnits := ← once o.computeUnits (word? value) }
  | "stream-cores" => return { o with streamCores := ← once o.streamCores (word? value) }
  | "wavefront-size" => return { o with wavefrontSize := ← once o.wavefrontSize (count? value) }
  | "placement" => return { o with placement := ← once o.placement (placement? value) }
  | "global-size" => return { o with globalSize := ← once o.globalSize (sizes? value) }
  | "local-size" => return { o with localSize := ← once o.localSize (sizes? value) }
  | "max-cycles" => return { o with maxCycles := ← once o.maxCycles (word? value) }
  | "trace" => return { o with trace := ← once o.trace (path? value) }
  | _ => none

/-- Set an option without a value. -/
def setSwitch (o : Options) (name : String) : Option Options :=
  match name with
  | "live" => if o.live then none else some { o with live := true }
  | "debug" => if o.debug then none else some { o with debug := true }
  | _ => none

/-! ## Arguments -/

/-- What an argument looks like. -/
inductive Argument where
  /-- An option by name, perhaps with its value. -/
  | long (name : String) (value : Option String)
  /-- Options by letter. -/
  | letters (cs : List Char)
  /-- The end of the options. -/
  | endOfOptions
  | plain (text : String)
deriving DecidableEq, Inhabited

def Argument.ofString (text : String) : Argument :=
  match text.toList with
  | ['-', '-'] => .endOfOptions
  | '-' :: '-' :: rest =>
    let name := String.ofList (rest.takeWhile (· != '='))
    match rest.dropWhile (· != '=') with
    | _ :: value => .long name (some (String.ofList value))
    | [] => .long name none
  | ['-'] => .plain text
  | '-' :: cs => .letters cs
  | _ => .plain text

/-- How far the arguments have been read. -/
structure Reading where
  options : Options := {}
  /-- The option that waits for its value. -/
  waiting : Option String := none
  /-- No further option can follow. -/
  ended : Bool := false
deriving Inhabited

namespace Reading

/-- Read options by letter. What follows the letter of an option with a value is the value. -/
def addLetters (r : Reading) : List Char → Option Reading
  | [] => some r
  | ['c'] => some { r with waiting := some "config" }
  | 'c' :: '=' :: value => do
    return { r with options := ← r.options.setValue "config" (String.ofList value) }
  | 'c' :: value => do
    return { r with options := ← r.options.setValue "config" (String.ofList value) }
  | 'd' :: rest => do
    let options ← r.options.setSwitch "debug"
    addLetters { r with options } rest
  | _ :: _ => none

/-- Read one argument. Only a plain one can be the value that an option waits for, and it cannot be
anything else. -/
def add (r : Reading) (text : String) : Option Reading :=
  if r.ended then none
  else
    match Argument.ofString text, r.waiting with
    | .plain value, some name => do
      return { r with options := ← r.options.setValue name value, waiting := none }
    | .long name (some value), none => do
      return { r with options := ← r.options.setValue name value }
    | .long name none, none =>
      if valueNames.contains name then some { r with waiting := some name }
      else do return { r with options := ← r.options.setSwitch name }
    | .letters cs, none => r.addLetters cs
    | .endOfOptions, none => some { r with ended := true }
    | _, _ => none

end Reading

/-- The options that a list of arguments gives, if it is a command line at all. -/
def parse? (arguments : List String) : Option Options :=
  match arguments.foldlM Reading.add {} with
  | some r => if r.waiting.isNone then some r.options else none
  | none => none

/-! ## Merging with a file -/

/-- A configuration with what the options say in place of what it says itself. -/
def override (o : Options) (c : SimConfig) : SimConfig where
  device := { c.device with
    computeUnits := o.computeUnits.getD c.device.computeUnits
    streamCores := o.streamCores.getD c.device.streamCores
    wavefrontSize := o.wavefrontSize.getD c.device.wavefrontSize
    placement := o.placement.getD c.device.placement }
  memory := c.memory
  run := {
    maxCycles := o.maxCycles.or c.run.maxCycles
    metricsInterval :=
      if o.live ∧ c.run.metricsInterval = 0 then 100 else c.run.metricsInterval }
  kernel := { c.kernel with
    globalSize := o.globalSize.getD c.kernel.globalSize
    localSize := o.localSize.getD c.kernel.localSize }

end Options

end Accelerator
