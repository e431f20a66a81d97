import ScriptCheck.Settings
import ScriptCheck.Toml.Reader

/-!
# The settings file

Settings are the `jscheck` table of a TOML document. A key that is missing keeps its
default and one that is unknown is ignored; a value of the wrong type makes the whole
file invalid. The table may also be given as an array, which sets the options in the
order of their listing.
-/

namespace ScriptCheck.Settings

/-- The strings of an array of strings. -/
def strings? : Toml → Option (List String)
  | .array items => items.mapM fun item =>
    match item with
    | .string value => some (String.ofList value)
    | _ => none
  | _ => none

def flag? : Toml → Option Bool
  | .boolean value => some value
  | _ => none

/-- A value read by `read`, or the default when there is none. -/
def orDefault {α : Type} (default : α) (read : Toml → Option α) : Option Toml → Option α
  | none => some default
  | some value => read value

/-- Settings from the options that are given. -/
def ofOptions? (includes excludes disable globals parseFirst : Option Toml) : Option Settings := do
  pure
    { includes := ← orDefault default.includes strings? includes
      excludes := ← orDefault default.excludes strings? excludes
      disable := ← orDefault default.disable strings? disable
      globals := ← orDefault default.globals strings? globals
      parseFirst := ← orDefault default.parseFirst flag? parseFirst }

/-- Settings from the value of the `jscheck` key. -/
def ofSection? : Toml → Option Settings
  | .table members =>
    let options := Toml.table members
    ofOptions? (options.member? "include") (options.member? "exclude")
      (options.member? "disable") (options.member? "globals") (options.member? "syntax_check")
  | .array items => ofOptions? items[0]? items[1]? items[2]? items[3]? items[4]?
  | _ => none

/-- Settings from a settings file. -/
def read? (text : Text) : Option Settings := do
  match (← Toml.read? text).member? "jscheck" with
  | some value => ofSection? value
  | none => some default

/-- A settings file to start from. -/
def starter : String :=
  "# jscheck configuration\n" ++
  "\n" ++
  "[jscheck]\n" ++
  "# Files scanned when a directory is given on the command line.\n" ++
  "include = [\"**/*.js\", \"**/*.mjs\", \"**/*.cjs\", \"**/*.jsx\"]\n" ++
  "exclude = [\"node_modules/**\", \"dist/**\", \"build/**\", \"**/*.min.js\"]\n" ++
  "\n" ++
  "# Rule ids to turn off (see `jscheck rules`).\n" ++
  "disable = []\n" ++
  "\n" ++
  "# Names defined outside your code, e.g. globals from a script tag.\n" ++
  "globals = []\n" ++
  "\n" ++
  "# Parse each file before running the rules (needs the `ast` build feature).\n" ++
  "syntax_check = true\n"

end ScriptCheck.Settings
