import ScriptCheck.Checker

/-!
# Settings

What a project may set: which files to look at below a directory, which rules to leave
out, which further names are defined, and whether texts are parsed before the rules.
-/

namespace ScriptCheck

structure Settings where
  /-- Globs, one of which a file found below a directory must match. -/
  includes : List String
  /-- Globs, none of which such a file may match. -/
  excludes : List String
  /-- Rules to leave out. -/
  disable : List String
  /-- Further names defined outside the texts. -/
  globals : List String
  /-- Whether to ask the parser. The parser that comes with the program accepts every
  text, so this makes no difference to it. -/
  parseFirst : Bool
  deriving DecidableEq, Repr

namespace Settings

def default : Settings where
  includes := ["**/*.js", "**/*.mjs", "**/*.cjs", "**/*.jsx"]
  excludes := ["node_modules/**", "dist/**", "build/**", "**/*.min.js"]
  disable := []
  globals := []
  parseFirst := true

/-- The checker that the settings describe. -/
def checker [Engine] (settings : Settings) : Except UnknownRule Checker := do
  let catalogue ← Catalogue.builtin.without settings.disable
  pure { Checker.ofCatalogue catalogue with
    globals := Globals.builtin.extend (settings.globals.map String.toList) }

end Settings

end ScriptCheck
