/-!
# Documents

A document, in whatever notation it is written, is a tree of lists and tables over plain values. The
records of this library are read from trees and written as trees; a notation turns text into a tree
and back.

Every number that a record holds is a natural number. A value that no record can take, such as a
fraction, a negative number or half a surrogate pair, is therefore only known to be *other*: it can be
skipped and never read.
-/

namespace Accelerator

inductive Tree where
  /-- A value that is absent. -/
  | null
  | bool (value : Bool)
  | natural (value : Nat)
  | text (value : String)
  | list (items : List Tree)
  /-- Entries in the order in which they are written. A name may occur more than once. -/
  | table (entries : List (String × Tree))
  /-- A point in time. Where a table is wanted it stands for one without any known name. -/
  | dateTime
  /-- A well-formed value that no record can take. -/
  | other
deriving Inhabited

namespace Tree

/-- The values written under a name. -/
def valuesOf (name : String) (entries : List (String × Tree)) : List Tree :=
  (entries.filter (·.1 == name)).map (·.2)

/-- The value under a name, or nothing. -/
def get? (t : Tree) (name : String) : Option Tree :=
  match t with
  | table entries => (valuesOf name entries).head?
  | _ => none

/-- A list or table that holds nothing. -/
def isVacant : Tree → Bool
  | list [] | table [] => true
  | _ => false

def isNull : Tree → Bool
  | null => true
  | _ => false

end Tree

end Accelerator
