import Accelerator.Document.Json.Parser
import Accelerator.Document.Json.Printer
import Accelerator.Files
import Accelerator.Path
import Accelerator.Snapshot

/-!
# Snapshots as files

A snapshot is written beside its place first, and then moved there, so that nobody ever reads half of
one. Whoever follows a run can do without it: a snapshot that cannot be written is dropped, and one
that cannot be read is not there.
-/

namespace Accelerator.Snapshot

variable {m : Type → Type} [Monad m]

/-- Put a snapshot at a path. What has no name cannot be replaced. -/
def publish (files : Files m) (path : String) (s : Snapshot) : m Unit := do
  match Path.withExtension? path "json.tmp" with
  | none => return ()
  | some scratch =>
    if ← files.create scratch then
      if ← files.write scratch (Json.render s.toTree) then
        let _ ← files.rename scratch path

/-- The snapshot that a text denotes. -/
def parse? (text : String) : Option Snapshot := (Json.parse? text).bind ofTree?

/-- The snapshot at a path. -/
def readFrom (files : Files m) (path : String) : m (Option Snapshot) := do
  return (← files.read path).bind parse?

end Accelerator.Snapshot
