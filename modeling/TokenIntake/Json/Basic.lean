import TokenIntake.Number.Binary64

/-!
# JSON values

A document as a tree. A reader yields objects in their normal form, in which the
names stand in increasing order and each stands once; a document that is only
written may have its members in any order.
-/

namespace TokenIntake

/-- A number is either whole and within the range of 64-bit words, signed or not, or a
double. The two kinds are never confused: `5` and `5.0` are different numbers. -/
inductive JsonNumber where
  | integer (value : Int)
  | double (value : Binary64)
  deriving DecidableEq, Repr

inductive Json where
  | null
  | bool (value : Bool)
  | number (value : JsonNumber)
  | string (value : String)
  | array (items : List Json)
  | object (members : List (String × Json))
  deriving Repr, Inhabited

namespace Json

/-- The members of an object, as far as they are looked at: the value under a name. -/
def lookup (name : String) : List (String × Json) → Option Json
  | [] => none
  | (key, value) :: rest => if key = name then some value else lookup name rest

/-- Sets a member. Members in increasing order stay in it, and an equal name gives way. -/
def setMember (name : String) (value : Json) : List (String × Json) → List (String × Json)
  | [] => [(name, value)]
  | (key, old) :: rest =>
    if name < key then (name, value) :: (key, old) :: rest
    else if name = key then (name, value) :: rest
    else (key, old) :: setMember name value rest

/-- Members in increasing order, the last of equal names kept. -/
def sortMembers (members : List (String × Json)) : List (String × Json) :=
  members.foldl (fun sorted member => setMember member.1 member.2 sorted) []

def integer (value : Int) : Json := .number (.integer value)

/-- The value at a place of an array; no other value has places. -/
def item? (index : Nat) : Json → Option Json
  | array items => items[index]?
  | _ => none

def string? : Json → Option String
  | string text => some text
  | _ => none

def integer? (fits : Int → Bool) : Json → Option Int
  | number (.integer value) => if fits value then some value else none
  | _ => none

@[simp] theorem lookup_setMember_self (name : String) (value : Json)
    (members : List (String × Json)) :
    lookup name (setMember name value members) = some value := by
  induction members with
  | nil => simp [setMember, lookup]
  | cons member rest ih =>
    obtain ⟨key, old⟩ := member
    by_cases before : name < key
    · simp [setMember, lookup, before]
    · by_cases equal : name = key
      · simp [setMember, lookup, equal]
      · simp [setMember, lookup, before, equal, Ne.symm equal, ih]

end Json

end TokenIntake
