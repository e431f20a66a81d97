import ScriptCheck.Text.Utf8

/-!
# Globs

A glob stands for a set of relative paths. It is matched against the bytes of a path, so
a wildcard for one character stands for one byte. Whether a star crosses from one folder
into the next is decided where the glob is used.

Matching is told by what may follow: a part accepts a path when it can take bytes off
its front such that the rest is accepted in turn.
-/

namespace ScriptCheck

/-- A part of a glob. -/
inductive Glob.Part where
  | literal (char : Char)
  /-- One byte. -/
  | any
  /-- Any number of bytes. -/
  | star
  /-- The folders in front, of which there may be none. -/
  | leading
  /-- All that is below a folder. -/
  | inside
  /-- The folders in between, of which there may be none. -/
  | between
  /-- One byte out of a class, or one that is not in it. -/
  | oneOf (negated : Bool) (ranges : List (Char × Char))
  /-- One of several globs. -/
  | choice (branches : List (List Glob.Part))
  deriving Repr

/-- A glob is matched part by part. -/
abbrev Glob := List Glob.Part

namespace Glob

/-- The byte that parts a path into names. -/
def separator : UInt8 := 47

/-- Any bytes are taken, of which `taken` holds for each. -/
def starThen (taken : UInt8 → Bool) (follows : Bytes → Bool) : Bytes → Bool
  | [] => follows []
  | byte :: rest => follows (byte :: rest) || (taken byte && starThen taken follows rest)

/-- Any bytes up to a separator are taken, and the separator as well. -/
def foldersThen (follows : Bytes → Bool) : Bytes → Bool
  | [] => false
  | byte :: rest => (byte == separator && follows rest) || foldersThen follows rest

/-- One byte is taken for which `taken` holds. -/
def byteThen (taken : UInt8 → Bool) (follows : Bytes → Bool) : Bytes → Bool
  | [] => false
  | byte :: rest => taken byte && follows rest

/-- The given bytes are taken. -/
def bytesThen (given : Bytes) (follows : Bytes → Bool) (path : Bytes) : Bool :=
  given.isPrefixOf path && follows (path.drop given.length)

/-- Whether a byte is in a range of characters. A character of several bytes counts as
each of its bytes; only the last byte of the lower end and the first byte of the upper
end bound what lies between. -/
def inRange (byte : UInt8) (range : Char × Char) : Bool :=
  let low := Text.encode [range.1]
  let high := Text.encode [range.2]
  low.contains byte || high.contains byte ||
    (range.1 != range.2 && low.getLast?.any (· ≤ byte) && high.head?.any (byte ≤ ·))

mutual

/-- Whether a part takes nothing whatever the path. -/
def Part.isVoid : Part → Bool
  | .choice branches => allVoid branches
  | _ => false

/-- Whether every part takes nothing. -/
def isVoid : List Part → Bool
  | [] => true
  | part :: rest => part.isVoid && isVoid rest

/-- Whether every branch takes nothing. -/
def allVoid : List (List Part) → Bool
  | [] => true
  | branch :: rest => isVoid branch && allVoid rest

end

mutual

/-- Whether a part takes bytes off a path such that `follows` holds for the rest. Stars
and single wildcards take separators when they are `crossing`. Of a choice, a branch that
takes nothing is no option unless there is no other. -/
def Part.takes (crossing : Bool) (follows : Bytes → Bool) : Part → Bytes → Bool
  | .literal char, path => bytesThen (Text.encode [char]) follows path
  | .any, path => byteThen (fun byte => crossing || byte != separator) follows path
  | .star, path => starThen (fun byte => crossing || byte != separator) follows path
  | .leading, path => follows path || foldersThen follows path
  | .inside, path => byteThen (· == separator) (starThen (fun _ => true) follows) path
  | .between, path =>
    byteThen (· == separator) (fun rest => follows rest || foldersThen follows rest) path
  | .oneOf negated ranges, path =>
    byteThen (fun byte => ranges.any (inRange byte) != negated) follows path
  | .choice branches, path =>
    if allVoid branches then follows path else someTakes crossing follows branches path

/-- Whether the parts take bytes one after the other such that `follows` holds for the
rest. -/
def allTake (crossing : Bool) (follows : Bytes → Bool) : List Part → Bytes → Bool
  | [], path => follows path
  | part :: rest, path => part.takes crossing (fun path => allTake crossing follows rest path) path

/-- Whether one of several globs takes bytes such that `follows` holds for the rest. -/
def someTakes (crossing : Bool) (follows : Bytes → Bool) : List (List Part) → Bytes → Bool
  | [], _ => false
  | branch :: rest, path =>
    (!isVoid branch && allTake crossing follows branch path) ||
      someTakes crossing follows rest path

end

/-- Whether a glob matches a path. Two stars alone match every path. -/
def isMatch (glob : Glob) (crossing : Bool) (path : Bytes) : Bool :=
  match glob with
  | [.leading] => true
  | _ => allTake crossing List.isEmpty glob path

end Glob

end ScriptCheck
