/-!
# TOML values

A document is a table. A table remembers how it came to be, because that decides
whether a later line may add to it: by a header of its own, by a longer header that
passes through it, or by a dotted key.
-/

namespace TokenIntake

/-- How a table came to be. -/
inductive TableOrigin where
  | header
  | longerHeader
  | dottedKey
  deriving DecidableEq, Repr

/-- A value. Numbers with a fraction and dates are kept as they are written. An inline
table is marked if a dotted key made it. -/
inductive Toml where
  | text (value : String)
  | integer (value : Int)
  | float (literal : String)
  | boolean (value : Bool)
  | dateTime (literal : String)
  | array (items : List Toml)
  | inline (byKey : Bool) (members : List (String × Toml))
  | table (origin : TableOrigin) (members : List (String × Toml))
  | tables (elements : List (List (String × Toml)))
  deriving Repr, Inhabited

namespace Toml

abbrev Members : Type := List (String × Toml)

def lookup (name : String) : Members → Option Toml
  | [] => none
  | (key, value) :: rest => if key = name then some value else lookup name rest

def set (name : String) (value : Toml) : Members → Members
  | [] => [(name, value)]
  | (key, old) :: rest =>
    if key = name then (name, value) :: rest else (key, old) :: set name value rest

def erase (name : String) (members : Members) : Members :=
  members.filter fun member => member.1 ≠ name

/-- Adds a value under a name that is not there yet. -/
def insertNew? (name : String) (value : Toml) (members : Members) : Option Members :=
  match lookup name members with
  | some _ => none
  | none => some (members ++ [(name, value)])

end Toml

end TokenIntake
