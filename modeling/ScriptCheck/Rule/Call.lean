import ScriptCheck.Pattern.Engine
import ScriptCheck.Rule.Basic
import ScriptCheck.Rule.Phrase

/-!
# Calls of undefined functions

The rule reports a call in code whose name is neither known from outside the text nor
bound in it by one of the usual declarations. A member call resolves against its
object and is not reported; nor is the head of a method definition.

Each declaration is searched for by a pattern of its own that is built around the name. A
pattern that the engine refuses binds nothing, so that a name of great length is reported
although the text declares it. From which length on that happens is not covered: it is up
to the engine.
-/

namespace ScriptCheck.Call

open Pattern Phrase

/-- Words in front of a parenthesis that are no calls. -/
def keywords : List String :=
  ["if", "for", "while", "switch", "catch", "function", "return", "typeof", "instanceof",
   "await", "async", "super", "import", "do", "else", "yield", "delete", "void", "in", "of",
   "with", "new", "throw", "case"]

def call : Pattern := sequence [edge, group 1 name, lit "("]

/-- The word in front of a function expression that makes it asynchronous, with the blanks
behind it, or nothing. -/
def asynchronous : Pattern := optional (seq (lit "async") someBlanks)

def functionWord : Pattern := seq (lit "function") edge

/-- A function of the given name. -/
def functionHead (name : Text) : Pattern :=
  sequence [edge, lit "function", blanks, optional (lit "*"), blanks, word name, blanks, lit "("]

/-- A variable that is declared to hold a function. -/
def functionValue (name : Text) : Pattern :=
  sequence
    [edge, declarator, someBlanks, word name, blanks, lit "=", blanks, asynchronous,
     choice [functionWord, lit "(", sequence [Phrase.name, blanks, lit "=>"]]]

/-- A variable or property that a function is assigned to. -/
def assignedFunction (name : Text) : Pattern :=
  sequence
    [freshName, word name, blanks, lit "=", blanks, asynchronous,
     either functionWord (sequence [lit "(", many (notAmong "()"), lit ")", blanks, lit "=>"])]

def classHead (name : Text) : Pattern :=
  sequence [edge, lit "class", someBlanks, word name, edge]

/-- An import of the name, on one line. -/
def importList (name : Text) : Pattern :=
  sequence
    [edge, lit "import", edge, many (notAmong ";\n"), char (fun c => !continuesName c),
     word name, edge, many (notAmong ";\n"), edge, lit "from", edge]

/-- A variable that is taken out of an object. -/
def destructuring (name : Text) : Pattern :=
  sequence
    [edge, declarator, blanks, lit "\x7b", many (notAmong "\x7d"), edge, word name, edge,
     many (notAmong "\x7d"), lit "\x7d", blanks, lit "="]

/-- The only parameter of an arrow function, without parentheses. -/
def bareParameter (name : Text) : Pattern := sequence [freshName, word name, blanks, lit "=>"]

/-- The declarations that bind a name. -/
def declarations (name : Text) : List Pattern :=
  [functionHead name, functionValue name, assignedFunction name, classHead name,
   importList name, destructuring name, bareParameter name]

/-- A parameter list, in front of an arrow or of a block. -/
def parameterList : Pattern :=
  sequence
    [lit "(", group 1 (many (notAmong "()")), lit ")", blanks, either (lit "=>") (lit "\x7b")]

/-- A parameter without its default value. -/
def parameterName (parameter : Text) : Text := Text.trim (parameter.takeWhile (· ≠ '='))

/-- A parameter of the given name, which may stand for all arguments that are left. -/
def parameterNamed (name : Text) : Pattern :=
  sequence [anchor .textStart, optional (lit "..."), word name, anchor .textEnd]

/-- Whether a name is a parameter of some function of the text. None is found unless the
engine takes both the pattern for the lists and the one for the name. -/
def isParameter [Engine] (text name : Text) : Bool :=
  Engine.takes parameterList && Engine.takes (parameterNamed name) &&
    (parameterList.allMatches text).any fun found =>
      (found.group? 1).any fun list =>
        (list.body.splitOn ',').any fun parameter =>
          (parameterNamed name).occursIn (parameterName parameter)

/-- Whether a text binds a name. A declaration whose pattern the engine does not take is
passed over. -/
def isDeclared [Engine] (text name : Text) : Bool :=
  ((declarations name).filter Engine.takes).any (fun declaration => declaration.occursIn text) ||
    isParameter text name

/-- Whether the parentheses that open at an offset are followed by a block, as in the
definition of a method. -/
def isDefinition (site : Site) (opened : Nat) : Check Bool :=
  match site.layout.matchingClose? opened with
  | none => pure false
  | some closed => do
    let rest ← Check.need (site.text.from? (closed + 1))
    pure (rest.trimStart.startsWith ['\x7b'])

/-- Whether the call found is of a function that nothing defines. -/
def isUndefined [Engine] (site : Site) : Check Bool :=
  match site.found.group? 1 with
  | none => pure false
  | some piece => do
    let name := piece.body
    if keywords.contains (String.ofList name) then
      return false
    let before ← Check.need (site.text.upTo? site.found.start)
    if before.getLast?.any fun c => c == '.' || isIdentifierChar c then
      return false
    if !site.layout.inCode site.found.start || site.known name then
      return false
    if ← Check.remember name fun _ => isDeclared site.text name then
      return false
    let opened ← Check.distance site.found.stop 1
    return !(← isDefinition site opened)

def undefined [Engine] : Rule where
  id := "undefined-function"
  pattern := call
  message := "Function not defined"
  severity := .error
  confirm := some isUndefined
  remedy := none

end ScriptCheck.Call
