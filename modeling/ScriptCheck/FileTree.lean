import ScriptCheck.Path
import ScriptCheck.Text.Utf8

/-!
# File trees

The files and folders of a system, from its root on, and the working folder. A place is
told by the names that lead to it from the root. Paths are looked up step by step: each
step but the last must lead to a folder. An absolute path starts from the root and any
other one from the working folder.

A tree holds files and folders only. Not covered are links from one place to another,
files that may not be read or written, and names that are not texts.
-/

namespace ScriptCheck

inductive Node where
  | file (content : Bytes)
  | folder
  deriving DecidableEq, Repr

structure FileTree where
  /-- What is listed at each place. The root itself, a folder, is not listed. -/
  nodes : List (Place × Node)
  /-- The folder that relative paths start from. -/
  working : Place
  deriving Repr

/-- Why a file cannot be read or written. -/
inductive FileError where
  | absent
  | notFolder
  | isFolder
  | notText
  deriving DecidableEq, Repr

def FileError.message : FileError → String
  | absent => "No such file or directory (os error 2)"
  | notFolder => "Not a directory (os error 20)"
  | isFolder => "Is a directory (os error 21)"
  | notText => "stream did not contain valid UTF-8"

namespace FileTree

/-- The folders around a place below the root, outermost first. -/
def foldersAround (place : Place) : List Place :=
  ((List.range place.length).map fun n => place.take n).filter fun folder => !folder.isEmpty

/-- What stands at a place: what is listed there, if all that is around it is a folder. -/
def get? (tree : FileTree) (place : Place) : Option Node :=
  if place.isEmpty then some .folder
  else if (foldersAround place).all fun folder => tree.nodes.lookup folder = some .folder then
    tree.nodes.lookup place
  else none

/-- Put something at a place, whatever stood there before. -/
def set (tree : FileTree) (place : Place) (node : Node) : FileTree :=
  { tree with nodes := (place, node) :: tree.nodes.filter fun entry => entry.1 ≠ place }

/-- Take away what stands at a place. -/
def remove (tree : FileTree) (place : Place) : FileTree :=
  { tree with nodes := tree.nodes.filter fun entry => entry.1 ≠ place }

/-- Make a folder where nothing stands yet. -/
def ensureFolder (tree : FileTree) (place : Place) : FileTree :=
  if (tree.get? place).isSome then tree else tree.set place .folder

/-- Make the folders around a place. -/
def surround (tree : FileTree) (place : Place) : FileTree :=
  (foldersAround place).foldl ensureFolder tree

/-- Put a file at a place and make the folders around it. -/
def put (tree : FileTree) (place : Place) (content : Bytes) : FileTree :=
  (tree.surround place).set place (.file content)

/-- The content of the file at a place. -/
def content? (tree : FileTree) (place : Place) : Option Bytes :=
  match tree.get? place with
  | some (.file content) => some content
  | _ => none

/-- All files, with their places. -/
def files (tree : FileTree) : List (Place × Bytes) :=
  tree.nodes.filterMap fun (place, _) => (tree.content? place).map fun content => (place, content)

def isFolderAt (tree : FileTree) (place : Place) : Bool := tree.get? place == some .folder

/-! ### Paths -/

/-- Follow a piece of a path from a folder. -/
def advance (tree : FileTree) (place : Place) (piece : String) : Except FileError Place :=
  if tree.isFolderAt place then
    match Path.step? piece with
    | none => .ok place
    | some step =>
      if (tree.get? (step.follow place)).isSome then .ok (step.follow place) else .error .absent
  else
    .error .notFolder

/-- Follow the pieces of a path from a place. -/
def locateFrom (tree : FileTree) (place : Place) (pieces : List String) : Except FileError Place :=
  pieces.foldlM tree.advance place

/-- The folder that a path starts from. -/
def origin (tree : FileTree) (path : String) : Place :=
  if Path.isAbsolute path then [] else tree.working

/-- The place that a path leads to. -/
def locate (tree : FileTree) (path : String) : Except FileError Place :=
  if path = "" then .error .absent else tree.locateFrom (tree.origin path) (Path.pieces path)

/-- The place of the file that a path names, if it is one. -/
def file? (tree : FileTree) (path : String) : Option Place :=
  match tree.locate path with
  | .ok place => if (tree.content? place).isSome then some place else none
  | .error _ => none

/-- The place of the folder that a path names, if it is one. -/
def folder? (tree : FileTree) (path : String) : Option Place :=
  match tree.locate path with
  | .ok place => if tree.isFolderAt place then some place else none
  | .error _ => none

/-- Whether a path leads to anything. -/
def isPresent (tree : FileTree) (path : String) : Bool := (tree.locate path).isOk

/-- The text of the file that a path names. -/
def readText (tree : FileTree) (path : String) : Except FileError Text := do
  let place ← tree.locate path
  match tree.content? place with
  | none => .error .isFolder
  | some content =>
    match Text.decode? content with
    | none => .error .notText
    | some text => .ok text

/-- The place of the file that is written when a path is written to. A trailing slash
asks for a folder. -/
def writable (tree : FileTree) (path : String) : Except FileError Place :=
  if path = "" then .error .absent
  else
    let pieces := Path.pieces path
    let named := (pieces.reverse.dropWhile (· = "")).reverse
    match named.getLast? with
    | none => .error .isFolder
    | some last => do
      let folder ← tree.locateFrom (tree.origin path) named.dropLast
      if tree.isFolderAt folder then
        match Path.step? last with
        | some (.name name) =>
          let place := folder ++ [name]
          if named.length < pieces.length ∨ tree.isFolderAt place then .error .isFolder
          else .ok place
        | _ => .error .isFolder
      else
        .error .notFolder

/-- Write a file to a path. -/
def write (tree : FileTree) (path : String) (content : Bytes) : Except FileError FileTree := do
  pure (tree.set (← tree.writable path) (.file content))

end FileTree

end ScriptCheck
