import ScriptCheck.Rule.Basic
import ScriptCheck.Rule.Phrase

/-!
# Functions that return nothing

The rule reports a function whose body, up to its closing brace or the end of the
text, has no `return` in code. A capitalized name is taken for a constructor, which
returns nothing by design.
-/

namespace ScriptCheck.Return

open Pattern Phrase

def functionHead : Pattern :=
  sequence
    [edge, lit "function", edge, gap, optional (lit "*"), gap, optional (group 1 name), gap,
     lit "(", many (notAmong "()"), lit ")", gap, lit "\x7b"]

/-- The code of some regions, with a blank behind every region so that words on the two
sides of a comment or literal stay apart. -/
def codeOf (text : Text) : List Region → Option Text
  | [] => some []
  | region :: rest => do
    let code ← if region.kind = .code then text.slice? region.start region.stop else some []
    let others ← codeOf text rest
    pure (code ++ ' ' :: others)

/-- Whether the body of the function found has no `return`. -/
def lacksReturn (site : Site) : Check Bool :=
  if (site.found.group? 1).any fun name => name.body.head?.any Char.isUpper then
    pure false
  else if !site.layout.inCode site.found.start then
    pure false
  else do
    let opened ← Check.distance site.found.stop 1
    let closed := (site.layout.matchingClose? opened).getD site.text.width
    -- The room for the body: the closer must not stand in front of the opener.
    let _room ← Check.distance closed opened
    let body ← Check.need (codeOf site.text (site.layout.regionsWithin (opened + 1) closed))
    pure !body.containsWord "return".toList

def missing : Rule where
  id := "function-without-return"
  pattern := functionHead
  message := "Function has no return statement"
  severity := .warning
  confirm := some lacksReturn
  remedy := none

end ScriptCheck.Return
