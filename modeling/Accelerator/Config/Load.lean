import Accelerator.Config.Codec
import Accelerator.Document.Toml.Parser
import Accelerator.Files

/-!
# Configuration files

A configuration file is written in TOML, and says only what differs from the defaults. Its device
section is validated once it has been read.
-/

namespace Accelerator.SimConfig

/-- The configuration that a text denotes, whether or not it is valid. -/
def parse? (text : String) : Option SimConfig := (Toml.parse? text).bind (ofTree? .toml)

/-- The valid configuration that a text denotes. -/
def ofToml (text : String) : Except Error SimConfig :=
  match parse? text with
  | none => throw (.configText "not a configuration")
  | some config => do
    config.device.validate
    return config

/-- The valid configuration in a file. -/
def load {m : Type → Type} [Monad m] (files : Files m) (path : String) :
    m (Except Error SimConfig) := do
  match ← files.read path with
  | some text => return ofToml text
  | none => return .error (.io "cannot be read")

end Accelerator.SimConfig
