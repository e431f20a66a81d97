import ScriptCheck.Text.Basic

/-!
# Paths

A path is written with slashes. Two paths are the same when they take the same steps:
slashes may be repeated or trail, and a dot counts only in front. Paths are ordered by
their steps, not by their characters, so what is in a folder comes right behind it.
-/

namespace ScriptCheck

/-- Whether a text can be the name of a file or folder. A path could not be written with
other names: it is split at its slashes, and the names of dots lead elsewhere. -/
def isFileName (text : String) : Bool :=
  text != "" && text != "." && text != ".." && !text.toList.contains '/'

/-- The name of a file or folder. -/
@[ext]
structure FileName where
  text : String
  proper : isFileName text = true
  deriving DecidableEq, Repr

def FileName.ofText? (text : String) : Option FileName :=
  if proper : isFileName text = true then some ⟨text, proper⟩ else none

/-- The names that lead to a file or folder from the root, or from another folder. -/
abbrev Place := List FileName

namespace Path

/-- A step of a path. -/
inductive Step where
  | root
  | here
  | above
  | name (name : FileName)
  deriving DecidableEq, Repr

namespace Step

/-- The rank of a kind of step. -/
def rank : Step → Nat
  | root => 0
  | here => 1
  | above => 2
  | name _ => 3

/-- The name of a step that has one. -/
def label : Step → String
  | name label => label.text
  | _ => ""

/-- Steps are ordered by rank, and names by their characters. -/
def isBefore (left right : Step) : Bool :=
  left.rank < right.rank || (left.rank == right.rank && left.label < right.label)

/-- Where a step leads from a place. The root is above itself. -/
def follow (place : Place) : Step → Place
  | root => []
  | here => place
  | above => place.dropLast
  | name next => place ++ [next]

end Step

/-- The parts of a path between its slashes. -/
def pieces (path : String) : List String := (path.toList.splitOn '/').map String.ofList

/-- A path that does not start from where one is. -/
def isAbsolute (path : String) : Bool := path.toList.head? == some '/'

/-- The step of a piece that does not stand in front. -/
def step? (piece : String) : Option Step :=
  if piece = ".." then some .above else (FileName.ofText? piece).map .name

/-- The steps of a path. -/
def steps (path : String) : List Step :=
  let others := (pieces path).filterMap step?
  if isAbsolute path then .root :: others
  else if (pieces path).head? = some "." then .here :: others
  else others

/-- Whether some steps come before others or are the same. -/
def isAtMost : List Step → List Step → Bool
  | [], _ => true
  | _ :: _, [] => false
  | left :: lefts, right :: rights =>
    left.isBefore right || (left == right && isAtMost lefts rights)

/-- Drop the paths in front that are the same as the one before them, and so on. -/
def dropRepeatsOf (previous : String) : List String → List String
  | [] => []
  | path :: rest =>
    if steps previous = steps path then dropRepeatsOf previous rest
    else path :: dropRepeatsOf path rest

/-- Keep the first of neighbours that are the same. -/
def dropRepeats : List String → List String
  | [] => []
  | first :: rest => first :: dropRepeatsOf first rest

/-- Put paths in order; of those that are the same, the one that came first stays. -/
def arrange (paths : List String) : List String :=
  dropRepeats (paths.mergeSort fun left right => isAtMost (steps left) (steps right))

/-- The path of something below a folder. -/
def join (folder : String) (names : Place) : String :=
  let rest := "/".intercalate (names.map FileName.text)
  if folder.toList.getLast? = some '/' then folder ++ rest else folder ++ "/" ++ rest

end Path

end ScriptCheck
