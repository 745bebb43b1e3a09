import Accelerator.Document.Tree

/-!
# Reading records from trees

A record is read from a table, its fields found by name, or from a list, its fields found by
position. The notations differ in two points, which a `Dialect` states: whether a list may hold more
than what it is read as, and what a variant without data may carry along.

* In a table a field may be written at most once. What the names of no field is skipped.
* A missing field takes its default. A record that has defaults for all of its fields may be a list
  that is too short.
-/

namespace Accelerator

/-- How a notation reads records. -/
structure Dialect where
  /-- A list may hold more items than the record or array it is read as. -/
  allowsExtraItems : Bool
  /-- What a variant without data may carry when it is written as a table with one entry. -/
  isUnitPayload : Tree → Bool

namespace Dialect

/-- In JSON lengths are exact, and a variant carries `null`. -/
def json : Dialect where
  allowsExtraItems := false
  isUnitPayload := Tree.isNull

/-- In TOML items beyond the last field are skipped, and a variant carries an empty table or an empty
list. -/
def toml : Dialect where
  allowsExtraItems := true
  isUnitPayload := Tree.isVacant

end Dialect

namespace Tree

/-- A natural number below `bound`. -/
def natural? (bound : Nat) : Tree → Option Nat
  | natural n => if n < bound then some n else none
  | _ => none

def text? : Tree → Option String
  | text s => some s
  | _ => none

/-- A value that may be absent. -/
def optional? {α : Type} (read : Tree → Option α) : Tree → Option (Option α)
  | null => some none
  | t => (read t).map some

/-- A list of any length. -/
def list? {α : Type} (read : Tree → Option α) : Tree → Option (List α)
  | list items => items.mapM read
  | _ => none

/-- One of several variants without data, found by name. -/
def variant? {α : Type} (dialect : Dialect) (variants : List α) (name : α → String) :
    Tree → Option α
  | text s => variants.find? (name · == s)
  | table [(s, payload)] =>
    if dialect.isUnitPayload payload then variants.find? (name · == s) else none
  | _ => none

/-- The fields of a record, in the order of `names`: each one's value, or nothing where it is not
written. With `short`, a list may end before the last field. -/
def fields? (dialect : Dialect) (names : List String) (short : Bool) :
    Tree → Option (List (Option Tree))
  | table entries =>
    names.mapM fun name =>
      match valuesOf name entries with
      | [] => some none
      | [value] => some (some value)
      | _ => none
  | list items =>
    if items.length < names.length ∧ !short ∨ names.length < items.length ∧
        !dialect.allowsExtraItems then none
    else some (names.mapIdx fun i _ => items[i]?)
  | dateTime => some (names.map fun _ => none)
  | _ => none

/-- An array of three values. -/
def triple? {α : Type} (dialect : Dialect) (read : Tree → Option α) :
    Tree → Option (α × α × α)
  | list (a :: b :: c :: rest) =>
    if rest.isEmpty || dialect.allowsExtraItems then do
      return (← read a, ← read b, ← read c)
    else none
  | _ => none

end Tree

/-- A field that takes a default where it is not written. -/
def fieldOr {α : Type} (default : α) (read : Tree → Option α) : Option Tree → Option α
  | none => some default
  | some t => read t

/-- A field that has to be written. -/
def required {α : Type} (read : Tree → Option α) : Option Tree → Option α
  | none => none
  | some t => read t

end Accelerator
