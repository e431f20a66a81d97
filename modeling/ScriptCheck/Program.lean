import ScriptCheck.Command
import ScriptCheck.Output.Summary
import ScriptCheck.Server
import ScriptCheck.Workspace

/-!
# The program

Carrying out a command over a file tree and standard input. The outcome is an exit code,
what was written to the two streams, and the file tree as it is left. Exit code 1 means
that checking found errors; 2 means that the command could not be carried out.
-/

namespace ScriptCheck.Program

open Output Workspace

structure Outcome where
  exit : Nat
  streams : Streams
  tree : FileTree

/-- A hint to the user. -/
def hint (text : String) : String :=
  let label := styled "90" "hint"
  s!"{label}: {text}"

/-- An error as it is shown. -/
def errorLine (message : String) : String :=
  let label := styled "31" "error"
  s!"{label}: {message}"

/-- A command that could not be carried out, with the lines that say why. -/
def refused (tree : FileTree) (lines : List String) : Outcome := ⟨2, ⟨"", joinLines lines⟩, tree⟩

/-- The lines that tell of a problem. When the settings file that was asked for is not
there, it says how to make one. -/
def problemLines : Problem → List String
  | .unreadableSettings path .absent =>
    let command := styled "1" "jscheck init"
    [errorLine s!"config file '{path}' not found",
     hint s!"run {command} to generate a starter config"]
  | problem => [errorLine problem.message]

/-- Carry out what needs settings. -/
def withSettings [Engine] (tree : FileTree) (named : Option String)
    (action : Settings → Checker → Except Problem Outcome) : Outcome :=
  let result := do
    let settings ← settings tree named
    action settings (← checker settings)
  match result with
  | .ok outcome => outcome
  | .error problem => refused tree (problemLines problem)

def check [Engine] (walker : Walker) (tree : FileTree) (input : Bytes) (paths : List String)
    (named : Option String) (format : Format) : Outcome :=
  withSettings tree named fun settings checker => do
    let survey ← scan walker checker tree settings input paths
    pure ⟨if survey.hasErrors then 1 else 0, format.render survey, tree⟩

/-- Mended standard input goes to the output. -/
def fix [Engine] (walker : Walker) (tree : FileTree) (input : Bytes) (paths : List String)
    (named : Option String) (dryRun : Bool) : Outcome :=
  withSettings tree named fun settings checker =>
    match Workspace.fix walker checker tree settings input paths dryRun with
    | (.error problem, after) => pure (refused after (problemLines problem))
    | (.ok mending, after) =>
      let fromInput := mending.files.filter Mended.fromInput
      let texts := fromInput.map fun file => String.ofList file.report.text
      pure ⟨0, ⟨String.join texts, mendingSummary mending⟩, after⟩

/-- Write a settings file to start from. -/
def start (tree : FileTree) (output : String) (force : Bool) : Outcome :=
  if tree.isPresent output && !force then
    refused tree [errorLine s!"'{output}' already exists (use --force to overwrite)"]
  else
    match tree.write output (Text.encode Settings.starter.toList) with
    | .error error => refused tree [errorLine s!"failed to write config: {error.message}"]
    | .ok after =>
      let mark := styled "32" "✓"
      let command := styled "1" "jscheck check ."
      let lines := [s!"{mark} Created {output}", hint s!"run {command} to find issues"]
      ⟨0, ⟨"", joinLines lines⟩, after⟩

/-- The checker that answers requests. -/
def server [Engine] (tree : FileTree) (named : Option String) : Except Problem Checker := do
  checker (← settings tree named)

def serve [Engine] (wording : Text → Text) (tree : FileTree) (input : Bytes)
    (named : Option String) : Outcome :=
  match server tree named with
  | .ok checker =>
    ⟨0, ⟨joinLines ((Server.serve wording checker input).map String.ofList), ""⟩, tree⟩
  | .error problem => refused tree (problemLines problem)

/-- Carry out a command, with a walker and with the words for requests that cannot be read. -/
def run [Engine] (walker : Walker) (wording : Text → Text) (tree : FileTree) (input : Bytes) :
    Command → Outcome
  | .check paths named format => check walker tree input paths named format
  | .fix paths named dryRun => fix walker tree input paths named dryRun
  | .rules => ⟨0, ⟨ruleTable .builtin, ""⟩, tree⟩
  | .init output force => start tree output force
  | .serve named => serve wording tree input named

end ScriptCheck.Program
