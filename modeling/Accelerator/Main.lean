import Accelerator.CommandLine.Run

/-!
# The program

The command line, with the files of the machine that it runs on.
-/

namespace Accelerator

/-- Whether an action on files succeeds. -/
def succeeds (action : IO Unit) : IO Bool :=
  try
    action
    return true
  catch _ => return false

/-- The files of the machine. -/
def machineFiles : Files IO where
  read path :=
    try
      return some (← IO.FS.readFile path)
    catch _ => return none
  create path := succeeds (IO.FS.writeFile path "")
  write path text := succeeds (IO.FS.writeFile path text)
  rename source target := succeeds (IO.FS.rename source target)

end Accelerator

open Accelerator in
def main (arguments : List String) : IO UInt32 := do
  let ending ← (letI _ := Sums.words; CommandLine.run machineFiles arguments)
  match ending with
  | .report lines => lines.forM fun line => IO.println line
  | .failure cause => IO.eprintln ("Error: " ++ cause.message)
  | .usage => IO.eprintln "error: these arguments are not understood"
  return ending.status.toUInt32
