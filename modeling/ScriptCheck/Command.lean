import ScriptCheck.Output.Format

/-!
# The command line

The first word that is no option names a command; the options and paths behind it
belong to that command. An option may be written with one dash and a letter, several of
which may share a dash, or with two dashes and a word. Its value follows as the next
word, or in the same word with or without an equals sign. Two dashes alone end the
options.

A value is looked at when the next known option, the next path or the end of the line
shows that it is complete. A word that looks like an option and is none is refused
before the value in front of it is looked at.
-/

namespace ScriptCheck

/-- What the program is asked to do. -/
inductive Command where
  | check (paths : List String) (config : Option String) (format : Output.Format)
  | fix (paths : List String) (config : Option String) (dryRun : Bool)
  | rules
  | init (output : String) (force : Bool)
  | serve (config : Option String)
  deriving DecidableEq, Repr

structure Invocation where
  command : Command
  verbose : Bool
  deriving DecidableEq, Repr

/-- Why a command line is not carried out. -/
inductive UsageError where
  | unknownArgument
  | invalidValue
  | tooManyValues
  /-- An option was given twice. -/
  | argumentConflict
  | missingArgument
  | missingCommand
  | invalidCommand
  /-- Help was asked for. -/
  | helpAsked
  /-- There is nothing to do, so help is shown. -/
  | nothingGiven
  deriving DecidableEq, Repr

namespace Command

/-- Whether a command reads standard input as a source. -/
def readsInput : Command → Bool
  | check paths _ _ => paths.contains "-"
  | fix paths _ _ => paths.contains "-"
  | _ => false

/-- The paths that a command names. -/
def paths : Command → List String
  | check paths config _ => paths ++ config.toList
  | fix paths config _ => paths ++ config.toList
  | rules => []
  | init output _ => [output]
  | serve config => config.toList

/-- An option. -/
structure Switch where
  long : String
  short : Option Char
  /-- Which values it takes; a flag takes none. -/
  accepts : Option (String → Bool)

/-- A value that is complete as soon as something else follows. -/
inductive Pending where
  | option (switch : Switch) (value : Option String)
  | paths (paths : List String)

/-- What has been read of a command's words. -/
structure Progress where
  flags : List String
  values : List (String × String)
  paths : List String
  pending : Option Pending
  /-- The options have been ended. -/
  ended : Bool

def Progress.start : Progress := ⟨[], [], [], none, false⟩

namespace Progress

def isGiven (progress : Progress) (switch : Switch) : Bool :=
  progress.flags.contains switch.long || (progress.values.lookup switch.long).isSome

/-- Look at the value that is now complete. -/
def settle (progress : Progress) : Except UsageError Progress :=
  let settled := { progress with pending := none }
  match progress.pending with
  | none => .ok settled
  | some (.option _ none) => .error .invalidValue
  | some (.option switch (some value)) =>
    if progress.isGiven switch then .error .argumentConflict
    else if (switch.accepts.getD fun _ => true) value then
      .ok { settled with values := progress.values ++ [(switch.long, value)] }
    else
      .error .invalidValue
  | some (.paths paths) =>
    if paths.contains "" then .error .invalidValue
    else .ok { settled with paths := progress.paths ++ paths }

/-- Take a flag. -/
def flag (progress : Progress) (switch : Switch) : Except UsageError Progress := do
  let settled ← progress.settle
  if switch.long = "help" then .error .helpAsked
  else if settled.isGiven switch then .error .argumentConflict
  else .ok { settled with flags := settled.flags ++ [switch.long] }

/-- Take an option that has a value, which may still be to come. -/
def option (progress : Progress) (switch : Switch) (value : Option String) :
    Except UsageError Progress := do
  let settled ← progress.settle
  let waiting := { settled with pending := some (.option switch value) }
  if value.isSome then waiting.settle else .ok waiting

/-- Take a path. -/
def path (progress : Progress) (path : String) : Except UsageError Progress :=
  match progress.pending with
  | some (.paths paths) => .ok { progress with pending := some (.paths (paths ++ [path])) }
  | _ => do
    let settled ← progress.settle
    .ok { settled with pending := some (.paths [path]) }

end Progress

/-- A word of an option with two dashes, as its name and the value behind an equals
sign. -/
def longParts (word : Text) : String × Option String :=
  match word.span (· ≠ '=') with
  | (name, '=' :: value) => (String.ofList name, some (String.ofList value))
  | (name, _) => (String.ofList name, none)

/-- Take a word with two dashes in front. -/
def takeLong (switches : List Switch) (progress : Progress) (word : Text) :
    Except UsageError Progress :=
  let (name, value) := longParts word
  match switches.find? fun switch => switch.long = name with
  | none => .error .unknownArgument
  | some switch =>
    match switch.accepts with
    | some _ => progress.option switch value
    | none => if value.isSome then .error .tooManyValues else progress.flag switch

/-- Take letters with one dash in front. -/
def takeShort (switches : List Switch) (progress : Progress) : Text → Except UsageError Progress
  | [] => .ok progress
  | letter :: rest =>
    match switches.find? fun switch => switch.short = some letter with
    | none => .error .unknownArgument
    | some switch =>
      match switch.accepts with
      | some _ =>
        match rest with
        | [] => progress.option switch none
        | '=' :: value => progress.option switch (some (String.ofList value))
        | value => progress.option switch (some (String.ofList value))
      | none => do takeShort switches (← progress.flag switch) rest

/-- Take a word that is not part of an option: the value an option waits for, or a path. -/
def takePlain (hasPaths : Bool) (progress : Progress) (word : Text) : Except UsageError Progress :=
  match progress.pending, progress.ended with
  | some (.option switch none), false =>
    .ok { progress with pending := some (.option switch (some (String.ofList word))) }
  | _, _ => if hasPaths then progress.path (String.ofList word) else .error .unknownArgument

/-- Take the next word behind a command. -/
def takeWord (switches : List Switch) (hasPaths : Bool) (progress : Progress) (word : Text) :
    Except UsageError Progress :=
  if progress.ended then takePlain hasPaths progress word
  else
    match word with
    | ['-', '-'] => .ok { progress with ended := true }
    | '-' :: '-' :: rest => takeLong switches progress rest
    | '-' :: letter :: rest => takeShort switches progress (letter :: rest)
    | _ => takePlain hasPaths progress word

/-- Take all words behind a command. -/
def takeWords (switches : List Switch) (hasPaths : Bool) (words : List String) :
    Except UsageError Progress := do
  let progress ← words.foldlM (fun progress word => takeWord switches hasPaths progress word.toList)
    Progress.start
  let progress ← progress.settle
  if hasPaths ∧ progress.paths.isEmpty then .error .missingArgument else .ok progress

/-! ### The options of each command -/

def verboseFlag : Switch := ⟨"verbose", some 'v', none⟩

def helpFlag : Switch := ⟨"help", some 'h', none⟩

/-- Options that every command has. -/
def commonSwitches : List Switch := [verboseFlag, helpFlag]

/-- A path that is an option's value may not be empty. -/
def isPath (value : String) : Bool := value ≠ ""

def configOption : Switch := ⟨"config", some 'c', some isPath⟩

def format? : String → Option Output.Format
  | "pretty" => some .pretty
  | "json" => some .json
  | "compact" => some .compact
  | "github" => some .github
  | _ => none

def formatOption : Switch := ⟨"format", some 'f', some fun value => (format? value).isSome⟩

def outputOption : Switch := ⟨"output", some 'o', some isPath⟩

/-- The command of a name, read from the words behind it. -/
def ofWords? (name : String) (words : List String) : Option (Except UsageError Invocation) :=
  let take (switches : List Switch) (hasPaths : Bool) (command : Progress → Command) :
      Except UsageError Invocation := do
    let progress ← takeWords (switches ++ commonSwitches) hasPaths words
    .ok ⟨command progress, progress.flags.contains "verbose"⟩
  match name with
  | "check" => some <| take [configOption, formatOption] true fun progress =>
    .check progress.paths (progress.values.lookup "config")
      (((progress.values.lookup "format").bind format?).getD .pretty)
  | "fix" => some <| take [configOption, ⟨"dry-run", none, none⟩] true fun progress =>
    .fix progress.paths (progress.values.lookup "config") (progress.flags.contains "dry-run")
  | "rules" => some <| take [] false fun _ => .rules
  | "init" => some <| take [outputOption, ⟨"force", none, none⟩] false fun progress =>
    .init ((progress.values.lookup "output").getD "jscheck.toml") (progress.flags.contains "force")
  | "mcp" => some <| take [configOption] false fun progress =>
    .serve (progress.values.lookup "config")
  | _ => none

def names : List String := ["check", "fix", "rules", "init", "mcp"]

/-- Help was asked for by name; the words behind it name one command at most. -/
def help (words : List String) : UsageError :=
  match words with
  | [] => .helpAsked
  | [name] => if names.contains name || name = "help" then .helpAsked else .invalidCommand
  | _ => .invalidCommand

/-- Read a command line from its first word on. -/
def readFrom (progress : Progress) : List String → Except UsageError Invocation
  | [] => .error (if progress.flags.isEmpty then .nothingGiven else .missingCommand)
  | word :: rest =>
    if progress.ended then
      .error (if names.contains word || word = "help" then .unknownArgument else .invalidCommand)
    else if word = "help" then
      .error (help rest)
    else
      match ofWords? word rest with
      | some read => do
        let invocation ← read
        .ok { invocation with
          verbose := invocation.verbose || progress.flags.contains "verbose" }
      | none =>
        match word.toList with
        | '-' :: _ :: _ => do
          readFrom (← takeWord commonSwitches false progress word.toList) rest
        | _ => .error .invalidCommand

end Command

/-- Read a command line. -/
def Invocation.read (words : List String) : Except UsageError Invocation :=
  Command.readFrom .start words

end ScriptCheck
