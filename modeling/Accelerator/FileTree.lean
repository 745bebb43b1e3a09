import Accelerator.Files
import Accelerator.Path

/-!
# Files in memory

A `FileTree` keeps files in memory, in directories and next to special files, and has a current
directory, from which paths start that do not begin with a slash. A path is followed part by part: every
part before the last has to be a directory, and the last one has to be a name. Paths and names are not
longer than a disk allows.

`FileTree.files` are the operations on files that such a tree offers.
-/

namespace Accelerator

/-- What can stand in the place of a file. All of them take any text. -/
inductive SpecialFile where
  /-- Keeps nothing and reads as empty. -/
  | empty
  /-- Keeps nothing and cannot be read to its end. -/
  | endless
  /-- Shows what it takes. -/
  | display
deriving DecidableEq, Inhabited

/-- What a name stands for. -/
inductive FileNode where
  /-- A directory, in which files may be created or not. -/
  | directory (isOpen : Bool)
  | file (text : String)
  | special (kind : SpecialFile)
deriving DecidableEq, Inhabited

/-- A place in a tree: the names that lead to it from the root. -/
abbrev Place := List String

structure FileTree where
  /-- What there is besides the root. -/
  nodes : List (Place × FileNode)
  /-- The current directory. -/
  current : Place
  /-- The text that has been shown. -/
  shown : String := ""
deriving Inhabited

namespace FileTree

/-- The longest name, in bytes. -/
def nameLimit : Nat := 255

/-- The longest path, in bytes. -/
def pathLimit : Nat := 4095

/-! ## Places -/

/-- What stands at a place. The root is a directory. -/
def node? (t : FileTree) : Place → Option FileNode
  | [] => some (.directory true)
  | place => (t.nodes.find? (·.1 == place)).map (·.2)

/-- Put something at a place, instead of what is there. -/
def put (t : FileTree) (place : Place) (node : FileNode) : FileTree :=
  { t with nodes := t.nodes.filter (·.1 != place) ++ [(place, node)] }

def erase (t : FileTree) (place : Place) : FileTree :=
  { t with nodes := t.nodes.filter (·.1 != place) }

/-- The text of the file at a place. -/
def text? (t : FileTree) (place : Place) : Option String :=
  match t.node? place with
  | some (.file text) => some text
  | _ => none

/-- The names in a directory. -/
def names (t : FileTree) (directory : Place) : List String :=
  t.nodes.filterMap fun (place, _) =>
    if place.dropLast = directory then place.getLast? else none

/-- From a directory, follow one part of a path into another. -/
def enter? (t : FileTree) (place : Place) (part : String) : Option Place :=
  if Path.isIdle part then some place
  else if part = Path.back then some place.dropLast
  else
    match t.node? (place ++ [part]) with
    | some (.directory _) => some (place ++ [part])
    | _ => none

/-- The place of the file that a path leads to, whether or not there is one. -/
def locate? (t : FileTree) (path : String) : Option Place := do
  if pathLimit < path.utf8ByteSize ∨ path.contains '\x00' then none
  let parts := Path.parts path
  let name ← parts.getLast?
  if Path.isIdle name ∨ name = Path.back ∨ nameLimit < name.utf8ByteSize then none
  let start := if path.startsWith "/" then [] else t.current
  return (← parts.dropLast.foldlM t.enter? start) ++ [name]

/-- Files may be created at a place. -/
def isOpenAt (t : FileTree) (place : Place) : Bool := t.node? place.dropLast == some (.directory true)

/-! ## Operations -/

/-- The text at a path. -/
def read? (t : FileTree) (path : String) : Option String :=
  match (t.locate? path).bind t.node? with
  | some (.file text) => some text
  | some (.special .empty) => some ""
  | _ => none

/-- The tree with an empty file at a path. A special file is left as it is. -/
def create? (t : FileTree) (path : String) : Option FileTree := do
  let place ← t.locate? path
  match t.node? place with
  | some (.directory _) => none
  | some (.special _) => return t
  | some (.file _) => return t.put place (.file "")
  | none => if t.isOpenAt place then some (t.put place (.file "")) else none

/-- The tree after a text has been written to a path. -/
def write? (t : FileTree) (path text : String) : Option FileTree := do
  let place ← t.locate? path
  match ← t.node? place with
  | .directory _ => none
  | .file _ => return t.put place (.file text)
  | .special .display => return { t with shown := t.shown ++ text }
  | .special _ => return t

/-- The tree with a file at another path. A directory cannot be replaced. -/
def rename? (t : FileTree) (source target : String) : Option FileTree := do
  let place ← t.locate? source
  let text ← t.text? place
  let goal ← t.locate? target
  match t.node? goal with
  | some (.directory _) => none
  | some _ => return (t.erase place).put goal (.file text)
  | none => if t.isOpenAt goal then some ((t.erase place).put goal (.file text)) else none

/-- Change the tree, if it can be changed in this way. -/
def attempt (change : FileTree → Option FileTree) : StateM FileTree Bool := do
  match change (← get) with
  | some t =>
    set t
    return true
  | none => return false

/-- The files of a tree. -/
def files : Files (StateM FileTree) where
  read path := return (← get).read? path
  create path := attempt (·.create? path)
  write path text := attempt (·.write? path text)
  rename source target := attempt (·.rename? source target)

/-! ## The tree of a machine -/

/-- The special files of a machine, under their names. -/
def devices : List (String × SpecialFile) :=
  [("null", .empty), ("stdin", .empty), ("zero", .endless), ("full", .endless),
    ("random", .endless), ("urandom", .endless), ("stderr", .endless), ("stdout", .display)]

/-- A machine with the given files in its current directory, which holds nothing else. -/
def machine (entries : List (String × String)) : FileTree where
  nodes :=
    ["dev", "etc", "home", "tmp", "usr", "var"].map (fun name => ([name], .directory true))
      ++ ["proc", "sys"].map (fun name => ([name], .directory false))
      ++ devices.map (fun (name, kind) => (["dev", name], .special kind))
      ++ (["tmp", "work"], .directory true)
      :: entries.map fun (name, text) => (["tmp", "work", name], .file text)
  current := ["tmp", "work"]

end FileTree

end Accelerator
