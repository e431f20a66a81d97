import ScriptCheck.Number.Binary64
import ScriptCheck.Text.Basic

/-!
# JSON values

Whole numbers that fit in 64 bits are kept as they are; every other number is a binary
floating point value. The members of an object are sorted by name, each name once.
-/

namespace ScriptCheck

inductive JsonNumber where
  | whole (value : Int)
  | binary (negative : Bool) (magnitude : Binary64)
  deriving DecidableEq, Repr

inductive Json where
  | null
  | bool (value : Bool)
  | number (value : JsonNumber)
  | string (value : Text)
  | array (items : List Json)
  | object (members : List (Text × Json))
  deriving Repr

namespace Json

/-- Put a member in its place among sorted ones. A member of the same name is replaced. -/
def insertMember (name : Text) (value : Json) : List (Text × Json) → List (Text × Json)
  | [] => [(name, value)]
  | (other, kept) :: rest =>
    if name = other then (name, value) :: rest
    else if name < other then (name, value) :: (other, kept) :: rest
    else (other, kept) :: insertMember name value rest

/-- The object with the given members; of two with one name the later one counts. -/
def ofMembers (members : List (Text × Json)) : Json :=
  object (members.foldl (fun sorted (name, value) => insertMember name value sorted) [])

/-- The object with the given members. -/
def record (members : List (String × Json)) : Json :=
  ofMembers (members.map fun (name, value) => (name.toList, value))

def ofNat (n : Nat) : Json := number (.whole n)

def ofString (s : String) : Json := string s.toList

/-- A value that may be missing; `null` stands for it then. -/
def orNull (value : Option Json) : Json := value.getD null

/-- The member of an object. Other values have no members. -/
def member? (name : String) : Json → Option Json
  | object members => members.lookup name.toList
  | _ => none

/-- The text of a string. -/
def text? : Json → Option Text
  | string value => some value
  | _ => none

end Json

end ScriptCheck
