import ScriptCheck.Region

/-!
# Bracket pairs

Each kind of bracket is paired on its own: a closer goes with the nearest earlier
opener of its kind that is still open, whatever brackets of other kinds stand between
them. A closer with no such opener is passed over. Only brackets in code count.
-/

namespace ScriptCheck

/-- The kinds of bracket. -/
inductive Bracket where
  | brace
  | paren
  | square
  deriving DecidableEq, Repr

namespace Bracket

def opener : Bracket → Char
  | brace => '\x7b'
  | paren => '('
  | square => '['

def closer : Bracket → Char
  | brace => '\x7d'
  | paren => ')'
  | square => ']'

/-- The pairs among the characters that follow, as offsets of opener and closer. `stack`
holds the openers still open, innermost first. -/
def pairsFrom (kind : Bracket) (stack : List Nat) : List (Nat × Char) → List (Nat × Nat)
  | [] => []
  | (offset, c) :: rest =>
    if c = kind.opener then
      kind.pairsFrom (offset :: stack) rest
    else if c = kind.closer then
      match stack with
      | [] => kind.pairsFrom [] rest
      | opened :: outer => (opened, offset) :: kind.pairsFrom outer rest
    else
      kind.pairsFrom stack rest

/-- The openers that stay open, innermost first. -/
def unclosedFrom (kind : Bracket) (stack : List Nat) : List (Nat × Char) → List Nat
  | [] => stack
  | (offset, c) :: rest =>
    if c = kind.opener then kind.unclosedFrom (offset :: stack) rest
    else if c = kind.closer then kind.unclosedFrom stack.tail rest
    else kind.unclosedFrom stack rest

/-- The pairs of one kind in the given code. -/
def pairs (kind : Bracket) (code : List (Nat × Char)) : List (Nat × Nat) := kind.pairsFrom [] code

/-- The outermost opener of one kind that stays open in the given code. -/
def unclosed? (kind : Bracket) (code : List (Nat × Char)) : Option Nat :=
  (kind.unclosedFrom [] code).getLast?

end Bracket

/-- What a text leaves open: the outermost unclosed brace and parenthesis and the first
literal without an end. -/
structure Balance where
  brace : Option Nat
  paren : Option Nat
  string : Option Nat
  deriving DecidableEq, Repr

/-- Nothing is left open. -/
def Balance.even : Balance := ⟨none, none, none⟩

/-- What a text leaves open. -/
def Text.balance (text : Text) : Balance where
  brace := Bracket.brace.unclosed? text.codeChars
  paren := Bracket.paren.unclosed? text.codeChars
  string := text.unterminated?

end ScriptCheck
