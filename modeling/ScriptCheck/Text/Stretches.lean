/-!
# Stretches of characters

A character class outside ASCII is a list of lengths. From the first code point on, they tell by
turns how many code points are left out and how many belong to the class.
-/

namespace ScriptCheck

/-- Whether a place lies in a stretch that belongs, if the first one does or does not. -/
def inStretch (belongs : Bool) : List Nat → Nat → Bool
  | [], _ => false
  | length :: lengths, place =>
    if place < length then belongs else inStretch (!belongs) lengths (place - length)

/-- Whether a character's code point lies in one of the stretches that belong. -/
def inStretches (lengths : List Nat) (c : Char) : Bool :=
  inStretch false lengths c.toNat

end ScriptCheck
