import ScriptCheck.Program

/-!
# The command

The program over the files of the system. What it can come to see is read before the command
is carried out: all that is below the working folder and below the places that the paths of the
command lead to, and the ignore files of the folders around them. The files that it changed are
written afterwards.
-/

namespace ScriptCheck.Program

open Output

/-- How deep folders may lie within each other. -/
def depthLimit : Nat := 4096

/-- A place as it is written from the root. -/
def written (place : Place) : String := "/" ++ "/".intercalate (place.map FileName.text)

/-- Add what stands at a place to a tree, if it can be read, and what is below it down to some
depth. Links below it are passed over. -/
def readNode (tree : FileTree) (place : Place) : Nat → IO FileTree
  | 0 => pure tree
  | depth + 1 => do
    let path ← try some <$> IO.FS.realPath (written place) catch _ => pure none
    let kind ← try path.mapM fun path => path.metadata catch _ => pure none
    match path, kind.map IO.FS.Metadata.type with
    | some path, some .file =>
      let content ← try some <$> IO.FS.readBinFile path catch _ => pure none
      pure (match content with
        | some content => tree.put place content.toList
        | none => tree)
    | some path, some .dir =>
      let mut tree := (tree.surround place).ensureFolder place
      let entries ← try path.readDir catch _ => pure #[]
      for entry in entries do
        let kind ← try some <$> entry.path.symlinkMetadata catch _ => pure none
        if let (some name, some kind) := (FileName.ofText? entry.fileName, kind) then
          if kind.type == .file || kind.type == .dir then
            tree ← readNode tree (place ++ [name]) depth
      pure tree
    | _, _ => pure tree

/-- Add the folders around a place to a tree, with the files of theirs that say what is left
out. -/
def readAround (tree : FileTree) (place : Place) : IO FileTree := do
  let mut tree := tree
  for folder in FileTree.enclosing place do
    for file in [[], FileTree.ignoreFile, FileTree.gitignoreFile, FileTree.excludeFile] do
      tree ← readNode tree (folder ++ file) 1
  pure tree

/-- The tree that a command with the given paths can come to see. -/
def readTree (paths : List String) : IO FileTree := do
  let folder ← IO.currentDir
  let working := (Path.pieces folder.toString).filterMap FileName.ofText?
  let mut tree : FileTree := ⟨[], working⟩
  for path in "." :: paths do
    let place := (Path.steps path).foldl Path.Step.follow working
    tree ← readAround (← readNode tree place depthLimit) place
  pure tree

/-- Read standard input to its end. -/
def readInput : IO Bytes := do
  let input ← IO.getStdin
  let mut content := #[]
  repeat
    let part ← input.read 65536
    if part.isEmpty then break
    content := content ++ part.data
  pure content.toList

/-- Write the files of a tree that are not the same in the tree as it was. -/
def writeChanges (before after : FileTree) : IO Unit :=
  for (place, content) in after.files do
    if before.content? place ≠ some content then
      IO.FS.writeBinFile (written place) ⟨content.toArray⟩

/-- What is said about a line that is not JSON. -/
def wording (_ : Text) : Text := "not JSON".toList

/-- Answer requests as they come. -/
def answerRequests (checker : Checker) : IO Unit := do
  let input ← IO.getStdin
  let output ← IO.getStdout
  repeat
    let line ← try input.getLine catch _ => pure ""
    if line.isEmpty then break
    for answer in Server.serve wording checker (Text.encode line.toList) do
      output.putStrLn (String.ofList answer)
    output.flush

/-- How the command is used. -/
def usage : String :=
  joinLines
    ["Usage: jscheck [-v] <command>",
     "",
     "  check <paths>... [-c <file>] [-f pretty|json|compact|github]",
     "  fix <paths>... [-c <file>] [--dry-run]",
     "  rules",
     "  init [-o <file>] [--force]",
     "  mcp [-c <file>]"]

/-- Show an outcome, write what has changed and answer with the exit code. -/
def conclude (before : FileTree) (outcome : Outcome) : IO UInt32 := do
  writeChanges before outcome.tree
  (← IO.getStdout).putStr outcome.streams.out
  (← IO.getStderr).putStr outcome.streams.err
  pure (UInt32.ofNat outcome.exit)

/-- Carry out a command over the files of the system. -/
def perform [Engine] (command : Command) : IO UInt32 := do
  let tree ← readTree command.paths
  match command with
  | .serve named =>
    match server tree named with
    | .error problem => conclude tree (refused tree (problemLines problem))
    | .ok checker => answerRequests checker; pure 0
  | _ =>
    let input ← if command.readsInput then readInput else pure []
    conclude tree (run .usual wording tree input command)

end ScriptCheck.Program

open ScriptCheck in
def main (args : List String) : IO UInt32 := do
  let _ := Engine.unlimited
  match Invocation.read args with
  | .ok invocation => Program.perform invocation.command
  | .error .helpAsked => (← IO.getStdout).putStr Program.usage; pure 0
  | .error _ => (← IO.getStderr).putStr Program.usage; pure 2
