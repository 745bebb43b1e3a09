/-!
# Paths

A path is a row of parts with slashes between them. Empty parts and single points in it lead nowhere
else, and two points lead back, so that only a last part of another kind is a name.

* `Path.named?` cuts a path at its name;
* `Path.withExtension?` is the path beside it that has another extension.
-/

namespace Accelerator.Path

/-- The parts of a path. -/
def parts (path : String) : List String := (path.toList.splitOn '/').map String.ofList

/-- A part that leads nowhere else. -/
def isIdle (part : String) : Bool := part == "" || part == "."

/-- The part that leads back. -/
def back : String := ".."

/-- A path cut at its name. -/
structure Named where
  /-- The parts before the name. -/
  parents : List String
  name : String
  /-- The parts after the name, which are idle. -/
  rest : List String
deriving DecidableEq, Inhabited

/-- A path cut at its name, if it has one. -/
def named? (path : String) : Option Named :=
  let reversed := (parts path).reverse
  match reversed.dropWhile isIdle with
  | [] => none
  | name :: parents =>
    if name = back then none
    else some { parents := parents.reverse, name, rest := (reversed.takeWhile isIdle).reverse }

/-- A name without its extension: without its last point and what follows it. A point at the very
beginning does not count. -/
def stem (name : String) : String :=
  let cs := name.toList
  let extension := cs.reverse.takeWhile (· != '.')
  match cs.take (cs.length - extension.length - 1) with
  | [] => name
  | stem => String.ofList stem

/-- A path with another extension in place of its own, and without what follows its name. The old
extension is taken off first, and its point stays: a name that consists of two points then is none. -/
def withExtension? (path extension : String) : Option String := do
  let n ← named? path
  let stem := stem n.name
  if stem ++ "." = back ∧ n.rest = [] then none
  else return "/".intercalate (n.parents ++ [stem ++ "." ++ extension])

end Accelerator.Path
