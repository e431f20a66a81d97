import ScriptCheck.Output.Survey
import ScriptCheck.SettingsFile
import ScriptCheck.Walk

/-!
# Workspaces

Checking and mending the files that paths name in a file tree. A file that is named is
always taken. Of the files that a walker finds below a folder that is named, those are taken
that match a glob of the settings and none of those that exclude; the globs see paths from
that folder, and their stars cross folders. A dash names standard input, which is read once
and comes first. Files come in the order of their paths, each once. A file that is not a
text is passed over.
-/

namespace ScriptCheck.Workspace

/-- Why files cannot be checked. -/
inductive Problem where
  | unreadableSettings (path : String) (error : FileError)
  | invalidSettings (path : String)
  | invalidGlob
  | unknownRule (unknown : UnknownRule)
  | noSuchPath (path : String)
  | unreadableInput (error : FileError)
  | unwritableFile (path : String) (error : FileError)
  deriving DecidableEq, Repr

def Problem.message : Problem → String
  | unreadableSettings path error => s!"failed to read config '{path}': {error.message}"
  | invalidSettings path => s!"failed to parse config '{path}'"
  | invalidGlob => "invalid glob pattern"
  | unknownRule unknown => unknown.message
  | noSuchPath path => s!"no such file or directory: '{path}'"
  | unreadableInput error => s!"failed to read stdin: {error.message}"
  | unwritableFile path error => s!"failed to write '{path}': {error.message}"

/-- The settings file that is read when none is named. -/
def settingsPath : String := "jscheck.toml"

/-- The settings of a file. -/
def settingsAt (tree : FileTree) (path : String) : Except Problem Settings :=
  match tree.readText path with
  | .error error => .error (.unreadableSettings path error)
  | .ok text =>
    match Settings.read? text with
    | none => .error (.invalidSettings path)
    | some settings => .ok settings

/-- The settings of the file that is named. Without a name the usual file is read if it
is there; otherwise the settings are the default ones. -/
def settings (tree : FileTree) (named : Option String) : Except Problem Settings :=
  match named with
  | some path => settingsAt tree path
  | none =>
    if (tree.file? settingsPath).isSome then settingsAt tree settingsPath else .ok .default

/-- The checker that settings describe. -/
def checker [Engine] (settings : Settings) : Except Problem Checker :=
  match settings.checker with
  | .error unknown => .error (.unknownRule unknown)
  | .ok checker => .ok checker

/-! ### Sources -/

/-- Which files below a folder are taken. -/
structure Selection where
  includes : List Glob
  excludes : List Glob

namespace Selection

def globs (texts : List String) : Except Problem (List Glob) :=
  match texts.mapM fun text => Glob.read? text.toList with
  | none => .error .invalidGlob
  | some globs => .ok globs

def ofSettings (settings : Settings) : Except Problem Selection := do
  pure ⟨← globs settings.includes, ← globs settings.excludes⟩

/-- Whether a file is taken, given its path from the folder. -/
def takes (selection : Selection) (path : Bytes) : Bool :=
  selection.includes.any (Glob.isMatch · true path) &&
    !selection.excludes.any (Glob.isMatch · true path)

end Selection

/-- The files that a path stands for, by their paths. -/
def filesOf (walker : Walker) (tree : FileTree) (selection : Selection) (path : String) :
    Except Problem (List String) :=
  match tree.file? path, tree.folder? path with
  | some _, _ => .ok [path]
  | none, some folder =>
    let found := (walker.below tree folder).filter fun names =>
      selection.takes (FileTree.pathBytes names)
    .ok (found.map (Path.join path))
  | none, none => .error (.noSuchPath path)

/-- A text that is to be checked, under the path that it goes by. -/
structure Source where
  path : String
  /-- It comes from standard input and stands in no file. -/
  fromInput : Bool
  text : Text
  deriving DecidableEq, Repr

/-- The path that stands for standard input. -/
def inputPath : String := "-"

/-- The source that standard input is. -/
def inputSource (input : Bytes) : Except Problem Source :=
  match Text.decode? input with
  | none => .error (.unreadableInput .notText)
  | some text => .ok ⟨"<stdin>", true, text⟩

/-- What paths stand for: sources that were read from standard input, and files. After
standard input has been read it is empty. -/
def targets (walker : Walker) (tree : FileTree) (selection : Selection) (input : Bytes) :
    List String → Except Problem (List Source × List String)
  | [] => .ok ([], [])
  | path :: rest =>
    if path = inputPath then do
      let source ← inputSource input
      let (sources, files) ← targets walker tree selection [] rest
      pure (source :: sources, files)
    else do
      let found ← filesOf walker tree selection path
      let (sources, files) ← targets walker tree selection input rest
      pure (sources, found ++ files)

/-- The source that a file is, if it is a text. -/
def fileSource? (tree : FileTree) (path : String) : Option Source :=
  match tree.readText path with
  | .ok text => some ⟨path, false, text⟩
  | .error _ => none

/-- All sources that paths stand for. -/
def sources (walker : Walker) (tree : FileTree) (settings : Settings) (input : Bytes)
    (paths : List String) : Except Problem (List Source) := do
  let selection ← Selection.ofSettings settings
  let (fromInput, files) ← targets walker tree selection input paths
  pure (fromInput ++ (Path.arrange files).filterMap (fileSource? tree))

/-! ### Checking and mending -/

/-- Check a source. -/
def survey (checker : Checker) (source : Source) : Surveyed :=
  ⟨source.path, source.text, checker.inspect source.text⟩

/-- Check all sources that paths stand for. -/
def scan (walker : Walker) (checker : Checker) (tree : FileTree) (settings : Settings)
    (input : Bytes) (paths : List String) : Except Problem Survey := do
  let files := (← sources walker tree settings input paths).map (survey checker)
  pure ⟨files, files.length, checker.catalogue.size⟩

/-- Mend a source. -/
def mend (checker : Checker) (source : Source) : Mended :=
  let report := checker.mend source.text
  ⟨source.path, source.fromInput, report, checker.inspect report.text⟩

/-- Write every mended file that has changed, one after the other. A file that cannot be
written ends this; what was written before stays. -/
def writeAll (tree : FileTree) : List Mended → Except Problem Unit × FileTree
  | [] => (.ok (), tree)
  | mended :: rest =>
    if mended.changed && !mended.fromInput then
      match tree.write mended.path (Text.encode mended.report.text) with
      | .ok after => writeAll after rest
      | .error error => (.error (.unwritableFile mended.path error), tree)
    else
      writeAll tree rest

/-- Mend all sources that paths stand for and write the changed files, or write nothing
in a dry run. The answer comes with the tree as it is left. -/
def fix (walker : Walker) (checker : Checker) (tree : FileTree) (settings : Settings)
    (input : Bytes) (paths : List String) (dryRun : Bool) : Except Problem Mending × FileTree :=
  match sources walker tree settings input paths with
  | .error problem => (.error problem, tree)
  | .ok sources =>
    let files := sources.map (mend checker)
    let (written, after) := if dryRun then (.ok (), tree) else writeAll tree files
    (written.map fun _ => ⟨files, dryRun⟩, after)

end ScriptCheck.Workspace
