/-!
# Files

The few things that this library does with files, for whatever it is that keeps them.
-/

namespace Accelerator

/-- What can be done with files. -/
structure Files (m : Type → Type) where
  /-- The text of a file, if there is such a file and it holds text. -/
  read : String → m (Option String)
  /-- Make a file, or empty one that is there. Does it exist now? -/
  create : String → m Bool
  /-- Put a text into a file that exists. Is it there now? -/
  write : String → String → m Bool
  /-- Give a file a new path, in place of whatever is there. -/
  rename : String → String → m Bool

end Accelerator
