import ScriptCheck.Pattern.Cursor
import ScriptCheck.Text.WordChar

/-!
# Patterns

A pattern describes stretches of text. At a given place it has a list of possible
ends, the preferred one first: an alternation prefers its first branch, a greedy
repetition the longest run and a reluctant one the shortest. What a pattern matches at
a place is its first end; a later end is only taken as part of a larger pattern whose
earlier choices fail.

Groups remember the piece they matched last.

A repetition takes one round or more. A first round that consumes nothing is the last one
too: another would be at the same place. A later round that consumes nothing is not taken,
since it would come to a place that has just been reached. So each round but the first
shortens what is ahead, and the characters ahead bound the number of rounds. Any number of
rounds are one round or more, or none.

Not covered is a reluctant choice within the rounds of a repetition that can be passed in
several ways without consuming anything. The order of its ends may then be another one; which
ends there are is not touched by this.
-/

namespace ScriptCheck

/-- Conditions on a place. -/
inductive Anchor where
  | textStart
  | textEnd
  | lineStart
  | lineEnd
  /-- A word character on exactly one side. -/
  | wordEdge
  | noWordEdge
  deriving DecidableEq, Repr

namespace Anchor

/-- Whether one neighbour of a place is a word character and the other is not. -/
def atWordEdge (cursor : Cursor) : Bool :=
  cursor.before.head?.any isWordChar != cursor.after.head?.any isWordChar

def holds (cursor : Cursor) : Anchor → Bool
  | textStart => cursor.before.isEmpty
  | textEnd => cursor.after.isEmpty
  | lineStart => cursor.before.head?.all (· == '\n')
  | lineEnd => cursor.after.head?.all (· == '\n')
  | wordEdge => atWordEdge cursor
  | noWordEdge => !atWordEdge cursor

end Anchor

inductive Pattern where
  /-- The empty stretch. -/
  | empty
  /-- One character of a class. -/
  | char (accepts : Char → Bool)
  /-- Any number of characters of a class. -/
  | run (greedy : Bool) (accepts : Char → Bool)
  /-- The empty stretch at a place where the condition holds. -/
  | anchor (condition : Anchor)
  | seq (first second : Pattern)
  | either (first second : Pattern)
  /-- One or more rounds of a pattern. -/
  | rounds (greedy : Bool) (round : Pattern)
  /-- A pattern whose piece is remembered under a number. -/
  | group (number : Nat) (inner : Pattern)

/-- How far a match has come: the place reached and the groups closed on the way, the
latest first. -/
structure Reading where
  cursor : Cursor
  groups : List (Nat × Piece)

namespace Pattern

/-- The places that a run of characters of a class can end at, the nearest first. -/
def stops (accepts : Char → Bool) (cursor : Cursor) : Text → List Cursor
  | [] => [cursor]
  | c :: rest =>
    cursor :: if accepts c then stops accepts (cursor.pass c rest) rest else []

/-- The ends of any number of further rounds, at most `bound` of them. A round that consumes
nothing is not taken. -/
def roundEnds (step : Reading → List Reading) (greedy : Bool) : Nat → Reading → List Reading
  | 0, reading => [reading]
  | bound + 1, reading =>
    let further := (step reading).flatMap fun next =>
      if reading.cursor.offset < next.cursor.offset then roundEnds step greedy bound next else []
    if greedy then further ++ [reading] else reading :: further

/-- The possible ends of a pattern, the preferred one first. -/
def ends : Pattern → Reading → List Reading
  | empty, reading => [reading]
  | char accepts, reading =>
    match reading.cursor.after with
    | [] => []
    | c :: rest =>
      if accepts c then [{ reading with cursor := reading.cursor.pass c rest }] else []
  | run greedy accepts, reading =>
    let places := stops accepts reading.cursor reading.cursor.after
    (if greedy then places.reverse else places).map fun place => { reading with cursor := place }
  | anchor condition, reading => if condition.holds reading.cursor then [reading] else []
  | seq first second, reading => (first.ends reading).flatMap second.ends
  | either first second, reading => first.ends reading ++ second.ends reading
  | rounds greedy round, reading =>
    (round.ends reading).flatMap fun next =>
      if reading.cursor.offset < next.cursor.offset then
        roundEnds round.ends greedy next.cursor.after.length next
      else [next]
  | group number inner, reading =>
    (inner.ends reading).map fun next =>
      { next with groups := (number, ⟨reading.cursor, next.cursor⟩) :: next.groups }

/-- The highest group number of a pattern. -/
def groupCount : Pattern → Nat
  | empty | char _ | run _ _ | anchor _ => 0
  | seq first second | either first second => max first.groupCount second.groupCount
  | rounds _ round => round.groupCount
  | group number inner => max number inner.groupCount

/-! ### Building patterns -/

/-- A pattern with no ends. -/
def never : Pattern := char fun _ => false

/-- One pattern after the other. -/
def sequence : List Pattern → Pattern
  | [] => empty
  | [last] => last
  | first :: rest => seq first (sequence rest)

/-- The first of the patterns that leads to a match. -/
def choice : List Pattern → Pattern
  | [] => never
  | [last] => last
  | first :: rest => either first (choice rest)

/-- Exactly the given characters. -/
def word (text : Text) : Pattern := sequence (text.map fun c => char (· == c))

/-- Exactly the characters of a string. -/
def lit (text : String) : Pattern := word text.toList

/-- One of several strings, the first one preferred. -/
def litOf (texts : List String) : Pattern := choice (texts.map lit)

/-- A pattern or nothing, preferably the pattern. -/
def optional (inner : Pattern) : Pattern := either inner empty

/-- Any number of rounds of a pattern, and as many as possible. -/
def manyRounds (round : Pattern) : Pattern := optional (rounds true round)

/-- As many characters of a class as possible. -/
def many (accepts : Char → Bool) : Pattern := run true accepts

/-- At least one character of a class, and as many as possible. -/
def many1 (accepts : Char → Bool) : Pattern := seq (char accepts) (many accepts)

/-- A place with a word character on exactly one side. -/
def edge : Pattern := anchor .wordEdge

end Pattern

end ScriptCheck
