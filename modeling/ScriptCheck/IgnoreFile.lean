import ScriptCheck.Glob.Reader
import ScriptCheck.Text.Blank
import ScriptCheck.Text.Lines

/-!
# Ignore files

An ignore file lists, one to a line, globs for what is to be left out below its folder.
A glob with a slash in front or inside is matched against the whole path from that
folder; any other one against the last name. An exclamation mark in front takes a path
back in, and a slash at the end restricts a glob to folders. The last line that matches
decides. Empty lines, lines that start with a number sign and invalid globs say nothing.
-/

namespace ScriptCheck

/-- A line of an ignore file. -/
structure IgnoreRule where
  glob : Glob
  /-- What matches is taken back in. -/
  keeps : Bool
  foldersOnly : Bool
  deriving Repr

/-- What ignore files say about a path. -/
inductive IgnoreVerdict where
  | ignored
  | kept
  deriving DecidableEq, Repr

namespace IgnoreRule

/-- Blanks at the end of a line do not count unless a backslash protects the last one. -/
def trimmed (line : Text) : Text :=
  if Text.endsWith line ['\\', ' '] then line else Text.trimEnd line

/-- The marks in front of a line: whether it keeps, whether it is bound to the folder of
the file, and the rest. -/
def marks : Text → Bool × Bool × Text
  | '\\' :: '!' :: rest => (false, false, '!' :: rest)
  | '\\' :: '#' :: rest => (false, false, '#' :: rest)
  | '!' :: '/' :: rest => (true, true, rest)
  | '!' :: rest => (true, false, rest)
  | '/' :: rest => (false, true, rest)
  | rest => (false, false, rest)

/-- Whether a line is restricted to folders, and the line without the slash that says so
or a backslash in front of that slash. -/
def folderMark (line : Text) : Bool × Text :=
  match line.reverse with
  | '/' :: '\\' :: rest => (true, rest.reverse)
  | '/' :: rest => (true, rest.reverse)
  | _ => (false, line)

/-- The glob of a line: one that is not bound may match below any folder, and one for all
that is below a folder does not match the folder itself. -/
def globText (bound : Bool) (line : Text) : Text :=
  let text :=
    if bound || line.any (· = '/') || line == ['*', '*'] then line
    else ['*', '*', '/'] ++ line
  if Text.endsWith text ['/', '*', '*'] then text ++ ['/', '*'] else text

/-- The rule of a line. -/
def read? (line : Text) : Option IgnoreRule :=
  let line := if line.head? = some '#' then [] else trimmed line
  if line.isEmpty then none
  else do
    let (keeps, bound, line) := marks line
    let (foldersOnly, line) := folderMark line
    pure ⟨← Glob.readLeniently? (globText bound line), keeps, foldersOnly⟩

/-- Whether a rule speaks of a path, given from the folder of its file. -/
def applies (rule : IgnoreRule) (path : Bytes) (isFolder : Bool) : Bool :=
  (isFolder || !rule.foldersOnly) && rule.glob.isMatch false path

def verdict (rule : IgnoreRule) : IgnoreVerdict := if rule.keeps then .kept else .ignored

end IgnoreRule

namespace IgnoreFile

/-- The texts of lines, up to the first that is not a text. -/
def textLines : List Bytes → List Text
  | [] => []
  | line :: rest =>
    match Text.decode? line with
    | some text => text :: textLines rest
    | none => []

/-- Drop the marks of byte order in front of a file. -/
def withoutOrderMark : List Text → List Text
  | [] => []
  | line :: rest => line.dropWhile (· = '\ufeff') :: rest

/-- The rules of an ignore file. -/
def rules (content : Bytes) : List IgnoreRule :=
  (withoutOrderMark (textLines content.lines)).filterMap IgnoreRule.read?

/-- What an ignore file says about a path, given from its folder. -/
def verdict? (content : Bytes) (path : Bytes) (isFolder : Bool) : Option IgnoreVerdict :=
  ((rules content).reverse.find? fun rule => rule.applies path isFolder).map IgnoreRule.verdict

end IgnoreFile

end ScriptCheck
