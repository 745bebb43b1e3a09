/-!
# Runs of code points

A class of characters is given by runs of code points.
-/

namespace Accelerator

/-- Runs of code points in ascending order, each given by its first and last. -/
abbrev Runs := List (Nat × Nat)

/-- Whether a character is in one of the runs. -/
def Runs.hold (runs : Runs) (c : Char) : Bool :=
  runs.any fun (first, last) => first ≤ c.toNat && c.toNat ≤ last

end Accelerator
