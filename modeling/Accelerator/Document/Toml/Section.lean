import Accelerator.Document.Tree

/-!
# The tables of a TOML document

A document is a list of statements, each of which adds to the tables built so far. A table comes into
being in one of three ways, and it depends on the way what may be added to it later:

* *declared* by a header of its own, as the outermost table also counts;
* *implied* by the header of a table inside, and it can then still be declared, once;
* *dotted*, by an entry whose key has several parts, and it then takes entries with such keys only.

No entry is ever written twice, and what is inside a value is closed.
-/

namespace Accelerator.Toml

/-- How a table came into being. -/
inductive Origin where
  | declared
  | implied
  | dotted
deriving DecidableEq, Inhabited

/-- What stands under a name while a document is read. -/
inductive Node where
  | value (tree : Tree)
  | table (origin : Origin) (entries : List (String × Node))
  /-- A list of tables, each of them declared. -/
  | tables (items : List (List (String × Node)))
deriving Inhabited

/-- A key of one part or more. -/
structure Key where
  /-- The names of the tables on the way. -/
  path : List String
  name : String
deriving DecidableEq, Inhabited

/-- A line of a document that means something. -/
inductive Statement where
  /-- The header of a table. -/
  | table (key : Key)
  /-- The header of a further table in a list of tables. -/
  | tables (key : Key)
  | entry (key : Key) (value : Tree)
deriving Inhabited

/-- Entries while a document is read. -/
abbrev Entries := List (String × Node)

namespace Entries

def node? (entries : Entries) (name : String) : Option Node :=
  (List.find? (·.1 == name) entries).map (·.2)

/-- Replace what stands under a name. -/
def replace (entries : Entries) (name : String) (node : Node) : Entries :=
  entries.map fun entry => if entry.1 == name then (name, node) else entry

def add (entries : Entries) (name : String) (node : Node) : Entries :=
  entries ++ [(name, node)]

/-- Change the table at the end of a path, and make the tables that are missing on the way. By
`dotted`, the path belongs to a key and not to a header; it may then not enter a table that is
declared. In a list of tables a path leads into the last one. -/
def change? (dotted : Bool) (update : Origin → Entries → Option Entries) :
    (path : List String) → Origin → Entries → Option Entries
  | [], origin, entries => update origin entries
  | name :: path, _, entries =>
    match entries.node? name with
    | none =>
      let origin := if dotted then .dotted else .implied
      (change? dotted update path origin []).map fun inner =>
        entries.add name (.table origin inner)
    | some (.value _) => none
    | some (.table origin inner) =>
      if dotted && origin == .declared then none
      else (change? dotted update path origin inner).map fun inner =>
        entries.replace name (.table origin inner)
    | some (.tables items) =>
      match items.getLast? with
      | none => none
      | some inner =>
        (change? dotted update path .declared inner).map fun inner =>
          entries.replace name (.tables (items.dropLast ++ [inner]))

/-- Write an entry. A table takes entries with keys of one part, unless it is dotted, and then it takes
the others. -/
def write? (key : Key) (value : Tree) : Origin → Entries → Option Entries :=
  change? true (fun origin entries =>
    if (origin == .dotted) == key.path.isEmpty then none
    else if (entries.node? key.name).isSome then none
    else some (entries.add key.name (.value value))) key.path

/-- Declare a table. One that is implied so far keeps what it has. -/
def declare? (key : Key) : Entries → Option Entries :=
  change? false (fun _ entries =>
    match entries.node? key.name with
    | none => some (entries.add key.name (.table .declared []))
    | some (.table .implied inner) =>
      some (entries.replace key.name (.table .declared inner))
    | some _ => none) key.path .declared

/-- Declare a further table in a list of tables. -/
def extend? (key : Key) : Entries → Option Entries :=
  change? false (fun _ entries =>
    match entries.node? key.name with
    | none => some (entries.add key.name (.tables [[]]))
    | some (.tables items) => some (entries.replace key.name (.tables (items ++ [[]])))
    | some _ => none) key.path .declared

end Entries

/-! ## Reading statements -/

/-- A document read so far: its outermost table, and the path of the table that entries go to. -/
structure Draft where
  entries : Entries := []
  current : List String := []
deriving Inhabited

namespace Draft

/-- Carry out one statement. -/
def add? (draft : Draft) : Statement → Option Draft
  | .table key => do
    return { entries := ← draft.entries.declare? key, current := key.path ++ [key.name] }
  | .tables key => do
    return { entries := ← draft.entries.extend? key, current := key.path ++ [key.name] }
  | .entry key value => do
    let entries ← Entries.change? false (Entries.write? key value) draft.current .declared
      draft.entries
    return { draft with entries }

end Draft

mutual

def Node.toTree : Node → Tree
  | .value tree => tree
  | .table _ entries => .table (entriesToTrees entries)
  | .tables items => .list (itemsToTrees items)

def entriesToTrees : List (String × Node) → List (String × Tree)
  | [] => []
  | (name, node) :: rest => (name, node.toTree) :: entriesToTrees rest

def itemsToTrees : List (List (String × Node)) → List Tree
  | [] => []
  | entries :: rest => .table (entriesToTrees entries) :: itemsToTrees rest

end

/-- The tree that statements describe. -/
def ofStatements? (statements : List Statement) : Option Tree := do
  let draft ← statements.foldlM Draft.add? {}
  return .table (entriesToTrees draft.entries)

/-- The table that the entries between two braces describe. -/
def ofEntries? (entries : List (Key × Tree)) : Option Tree := do
  let entries ← entries.foldlM
    (fun entries (key, value) => Entries.write? key value .declared entries) []
  return .table (entriesToTrees entries)

end Accelerator.Toml
