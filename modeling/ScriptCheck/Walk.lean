import ScriptCheck.FileTree
import ScriptCheck.IgnoreFile

/-!
# Walking a folder

A walker finds files below a folder. Which of them it finds, and in which order, is up to the
walker. `FileTree.walk` is the walk that is made as a rule: it finds the files except what
ignore files or a hidden name leave out together with all that is below. The folder itself is
never left out.

What is left out is decided by the ignore files of the folders around, the nearest that
has something to say first. Files of three kinds are asked in turn: `.ignore` files, and
within a repository also `.gitignore` files and the list of exclusions that the
repository keeps for itself. A repository is what is below a folder that holds `.git`;
one repository within another stands on its own. Where the files say nothing, a name
that starts with a dot is left out.

The walk does not cover what users exclude for all their repositories at once, by a file of
their own that no folder around holds. What is said about checking and mending files holds for
every walker.
-/

namespace ScriptCheck

/-- A way of finding the files below a folder. -/
structure Walker where
  /-- The names that lead from a folder to the files that are found below it. -/
  below : FileTree → Place → List Place
  /-- Nothing but files is found. -/
  isFile : ∀ tree folder names, names ∈ below tree folder →
    (tree.content? (folder ++ names)).isSome = true

namespace FileTree

/-- The bytes of a path of names. -/
def pathBytes (names : Place) : Bytes :=
  Text.encode ("/".intercalate (names.map FileName.text)).toList

/-! ### What is left out -/

/-- The kinds of files that say what is left out, by the names that lead to them from the
folder that they speak for. -/
def ignoreFile : Place := [⟨".ignore", by decide⟩]

@[inherit_doc ignoreFile]
def gitignoreFile : Place := [⟨".gitignore", by decide⟩]

@[inherit_doc ignoreFile]
def excludeFile : Place := [⟨".git", by decide⟩, ⟨"info", by decide⟩, ⟨"exclude", by decide⟩]

/-- What the nearest of several folders says about a place, by a file of theirs of the
given kind. -/
def verdictBy? (tree : FileTree) (file : Place) (folders : List Place) (place : Place) :
    Option IgnoreVerdict :=
  folders.findSome? fun folder => do
    let content ← tree.content? (folder ++ file)
    IgnoreFile.verdict? content (pathBytes (place.drop folder.length)) (tree.isFolderAt place)

/-- The folders around a place, nearest first, with the root as the last. -/
def enclosing (place : Place) : List Place :=
  ((List.range place.length).map fun n => place.take n).reverse

def isRepository (tree : FileTree) (folder : Place) : Bool :=
  (tree.get? (folder ++ [⟨".git", by decide⟩])).isSome

/-- Those of several folders, nearest first, that are in the nearest repository. -/
def withinRepository (tree : FileTree) : List Place → List Place
  | [] => []
  | folder :: rest =>
    if tree.isRepository folder then [folder]
    else if rest.any tree.isRepository then folder :: withinRepository tree rest
    else []

/-- What ignore files say about a place. -/
def verdict? (tree : FileTree) (place : Place) : Option IgnoreVerdict :=
  let folders := enclosing place
  let repository := tree.withinRepository folders
  (tree.verdictBy? ignoreFile folders place)
    |>.or (tree.verdictBy? gitignoreFile repository place)
    |>.or (tree.verdictBy? excludeFile repository place)

def isHidden (place : Place) : Bool :=
  place.getLast?.any fun name => name.text.toList.head? == some '.'

/-- Whether a walk leaves out a place. -/
def leavesOut (tree : FileTree) (place : Place) : Bool :=
  match tree.verdict? place with
  | some .ignored => true
  | some .kept => false
  | none => isHidden place

/-! ### The walk -/

/-- The places on the way from a folder along some names, the last one included. -/
def wayTo (folder names : Place) : List Place :=
  (List.range names.length).map fun n => folder ++ names.take (n + 1)

/-- The names that lead from a folder to a place below it. -/
def namesBelow? (folder place : Place) : Option Place :=
  if folder.isPrefixOf place then some (place.drop folder.length) else none

/-- The files that walking a folder finds, by the names that lead to them. -/
def walk (tree : FileTree) (folder : Place) : List Place :=
  (tree.files.filterMap fun (place, _) => namesBelow? folder place).filter fun names =>
    (wayTo folder names).all fun step => !tree.leavesOut step

/-- Whatever a walk finds below a folder is a file of the tree, so that it can be read. -/
theorem isSome_content?_of_mem_walk {tree : FileTree} {folder names : Place}
    (found : names ∈ tree.walk folder) : (tree.content? (folder ++ names)).isSome = true := by
  obtain ⟨⟨place, content⟩, listed, below⟩ := List.mem_filterMap.mp (List.mem_filter.mp found).1
  obtain ⟨⟨_, _⟩, -, read⟩ := List.mem_filterMap.mp listed
  obtain ⟨_, stands, same⟩ := Option.map_eq_some_iff.mp read
  cases same
  dsimp only [namesBelow?] at below
  split at below
  · rename_i inside
    obtain ⟨rest, rfl⟩ := List.isPrefixOf_iff_prefix.mp inside
    cases below
    rw [List.drop_left, stands]
    rfl
  · cases below

end FileTree

/-- The walker that asks the ignore files of a tree. -/
def Walker.usual : Walker where
  below := FileTree.walk
  isFile := fun _ _ _ => FileTree.isSome_content?_of_mem_walk

end ScriptCheck
