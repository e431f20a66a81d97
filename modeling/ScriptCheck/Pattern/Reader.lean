import ScriptCheck.Pattern.Basic
import ScriptCheck.Text.Blank
import ScriptCheck.Text.Digit

/-!
# Reading patterns

The usual written form of patterns: characters, the dot, classes in square brackets,
escapes for classes and anchors, groups in parentheses, alternatives, and the counts
`*`, `+`, `?` and `{n,m}`, each reluctant with a question mark behind it. `(?m)` lets
the line anchors see every line and `(?s)` lets the dot match a newline, up to the end
of the group they stand in.

Reading fails on anything else: a group or class that is not closed, a count with
nothing in front of it, a range or a count that runs backwards, references to groups,
and conditions on what surrounds a match. Every step consumes a character, which bounds
the steps by the length of what is read.
-/

namespace ScriptCheck.Pattern

/-- Settings that a pattern can change while it is read. -/
structure Flags where
  /-- Line anchors hold at every line. -/
  everyLine : Bool
  /-- The dot matches a newline. -/
  dotAll : Bool

/-- What is left to read, how many groups were opened, and the settings in force. -/
structure Reader where
  rest : Text
  groups : Nat
  flags : Flags

/-- A step of reading, which may fail. -/
abbrev Read (α : Type) := StateT Reader Option α

namespace Read

/-- The next character, not taken. -/
def peek : Read (Option Char) := fun reader => some (reader.rest.head?, reader)

/-- Take the next character. -/
def next : Read Char := fun reader =>
  match reader.rest with
  | [] => none
  | c :: rest => some (c, { reader with rest })

/-- Take the given text if it is next. -/
def accept (text : String) : Read Bool := fun reader =>
  if reader.rest.startsWith text.toList then
    some (true, { reader with rest := reader.rest.drop text.length })
  else
    some (false, reader)

/-- Take the characters of a class that are next. -/
def takeWhile (accepts : Char → Bool) : Read Text := fun reader =>
  some (reader.rest.takeWhile accepts, { reader with rest := reader.rest.dropWhile accepts })

/-- Take the given text, or fail. -/
def expect (text : String) : Read Unit := do
  if ← accept text then pure () else failure

end Read

/-- The class that an escaped letter stands for. -/
def classOf? : Char → Option (Char → Bool)
  | 'w' => some isWordChar
  | 'W' => some fun c => !isWordChar c
  | 'd' => some isDecimalDigit
  | 'D' => some fun c => !isDecimalDigit c
  | 's' => some isBlank
  | 'S' => some fun c => !isBlank c
  | _ => none

/-- The character that an escaped one stands for. Punctuation stands for itself. -/
def escapedChar? : Char → Option Char
  | 'n' => some '\n'
  | 't' => some '\t'
  | 'r' => some '\r'
  | 'f' => some '\x0c'
  | 'v' => some '\x0b'
  | 'a' => some '\x07'
  | c =>
    if c.toNat < 128 && !c.isAlphanum && c != '<' && c != '>' && 32 < c.toNat && c.toNat < 127 then
      some c
    else
      none

/-- One member of a class: a class of its own, or a single character. -/
def readMember : Read (Char ⊕ (Char → Bool)) := do
  match ← Read.next with
  | '\\' =>
    let c ← Read.next
    match classOf? c with
    | some accepts => pure (.inr accepts)
    | none =>
      match escapedChar? c with
      | some plain => pure (.inl plain)
      | none => failure
  | '[' => failure
  | c => pure (.inl c)

/-- The members of a class up to its closing bracket. -/
def readMembers : Nat → Read (Char → Bool)
  | 0 => failure
  | bound + 1 => do
    match ← readMember with
    | .inr accepts => others bound accepts
    | .inl first =>
      match (← get).rest with
      | '-' :: c :: _ =>
        if c = ']' then
          others bound (· == first)
        else
          let _ ← Read.next
          match ← readMember with
          | .inl last =>
            if first.toNat ≤ last.toNat then
              others bound fun c => first.toNat ≤ c.toNat && c.toNat ≤ last.toNat
            else
              failure
          | .inr _ => failure
      | _ => others bound (· == first)
where
  /-- The class so far, closed here or joined with further members. -/
  others (bound : Nat) (accepts : Char → Bool) : Read (Char → Bool) := do
    if ← Read.accept "]" then
      pure accepts
    else
      let more ← readMembers bound
      pure fun c => accepts c || more c

/-- A class behind its opening bracket. -/
def readClass : Read (Char → Bool) := do
  let negated ← Read.accept "^"
  let accepts ← readMembers (← get).rest.length
  pure fun c => accepts c != negated

/-- An escape behind its backslash. -/
def readEscape : Read Pattern := do
  let c ← Read.next
  match c with
  | 'b' => pure (anchor .wordEdge)
  | 'B' => pure (anchor .noWordEdge)
  | 'A' => pure (anchor .textStart)
  | 'z' => pure (anchor .textEnd)
  | _ =>
    match classOf? c with
    | some accepts => pure (char accepts)
    | none =>
      match escapedChar? c with
      | some plain => pure (char (· == plain))
      | none => failure

/-- A number in decimal digits. -/
def readNumber : Read Nat := do
  let digits ← Read.takeWhile Char.isDigit
  if digits.isEmpty then
    failure
  else
    pure (digits.foldl (fun value digit => value * 10 + (digit.toNat - 48)) 0)

/-- The least and the largest number of rounds, given the sign that opens a count. -/
def readCount (sign : Char) : Read (Nat × Option Nat) := do
  match sign with
  | '*' => pure (0, none)
  | '+' => pure (1, none)
  | '?' => pure (0, some 1)
  | _ =>
    let least ← readNumber
    if ← Read.accept "\x7d" then
      pure (least, some least)
    else
      Read.expect ","
      if ← Read.accept "\x7d" then
        pure (least, none)
      else
        let most ← readNumber
        Read.expect "\x7d"
        if least ≤ most then pure (least, some most) else failure

/-- Any number of rounds of a pattern. -/
def anyRounds (greedy : Bool) : Pattern → Pattern
  | char accepts => run greedy accepts
  | round => if greedy then manyRounds round else either empty (rounds false round)

/-- One or more rounds of a pattern. -/
def someRounds (greedy : Bool) : Pattern → Pattern
  | char accepts => seq (char accepts) (run greedy accepts)
  | round => rounds greedy round

/-- At most so many rounds of a pattern. -/
def atMost (greedy : Bool) (round : Pattern) : Nat → Pattern
  | 0 => empty
  | count + 1 =>
    let further := seq round (atMost greedy round count)
    if greedy then either further empty else either empty further

/-- A pattern with a count. -/
def counted (greedy : Bool) (least : Nat) (most : Option Nat) (round : Pattern) : Pattern :=
  match most, least with
  | some most, _ => sequence (List.replicate least round ++ [atMost greedy round (most - least)])
  | none, 0 => anyRounds greedy round
  | none, least + 1 => sequence (List.replicate least round ++ [someRounds greedy round])

/-- Whether a text can name a group. -/
def isGroupName : Text → Bool
  | [] => false
  | c :: rest => (c.isAlpha || c == '_') && rest.all fun c => c.isAlphanum || c == '_'

/-- Settings up to a closing mark, added to or taken from those in force. -/
def readFlags (flags : Flags) (value : Bool) : Nat → Read Flags
  | 0 => failure
  | bound + 1 => do
    match ← Read.peek with
    | some 'm' => let _ ← Read.next; readFlags { flags with everyLine := value } value bound
    | some 's' => let _ ← Read.next; readFlags { flags with dotAll := value } value bound
    | some '-' => let _ ← Read.next; if value then readFlags flags false bound else failure
    | _ => pure flags

mutual

/-- Alternatives up to the end of the group. -/
def readChoice : Nat → Read Pattern
  | 0 => failure
  | bound + 1 => do
    let first ← readSequence bound []
    if ← Read.accept "|" then
      let second ← readChoice bound
      pure (either first second)
    else
      pure first

/-- Items up to the end of an alternative. `items` are those read, the last one first; an
item without a pattern is a change of settings. -/
def readSequence : Nat → List (Option Pattern) → Read Pattern
  | 0, _ => failure
  | bound + 1, items => do
    match ← Read.peek with
    | none | some ')' | some '|' => pure (sequence (items.reverse.filterMap id))
    | some c =>
      let _ ← Read.next
      if c = '*' ∨ c = '+' ∨ c = '?' ∨ c = '\x7b' then
        match items with
        | some round :: before =>
          let (least, most) ← readCount c
          let reluctant ← Read.accept "?"
          readSequence bound (some (counted (!reluctant) least most round) :: before)
        | _ => failure
      else
        let item ← readItem bound c
        readSequence bound (item :: items)

/-- The item that starts with a character already taken. -/
def readItem : Nat → Char → Read (Option Pattern)
  | 0, _ => failure
  | bound + 1, c => do
    let flags := (← get).flags
    match c with
    | '(' => readGroup bound
    | '[' => return some (char (← readClass))
    | '\\' => return some (← readEscape)
    | '.' => return some (char fun c => flags.dotAll || c != '\n')
    | '^' => return some (anchor (if flags.everyLine then .lineStart else .textStart))
    | '$' => return some (anchor (if flags.everyLine then .lineEnd else .textEnd))
    | _ => return some (char (· == c))

/-- A group behind its opening parenthesis, or a change of settings. -/
def readGroup : Nat → Read (Option Pattern)
  | 0 => failure
  | bound + 1 => do
    let outer := (← get).flags
    if ← Read.accept "?" then
      if (← Read.accept "P<") || (← Read.accept "<") then
        let name ← Read.takeWhile (· != '>')
        Read.expect ">"
        if isGroupName name then some <$> readCapture bound outer else failure
      else
        let inner ← readFlags outer true bound
        if ← Read.accept ")" then
          modify fun reader => { reader with flags := inner }
          pure none
        else
          Read.expect ":"
          modify fun reader => { reader with flags := inner }
          let body ← readChoice bound
          Read.expect ")"
          modify fun reader => { reader with flags := outer }
          pure (some body)
    else
      some <$> readCapture bound outer

/-- The body of a group that is remembered, and the settings in force behind it. -/
def readCapture : Nat → Flags → Read Pattern
  | 0, _ => failure
  | bound + 1, outer => do
    let number := (← get).groups + 1
    modify fun reader => { reader with groups := number }
    let body ← readChoice bound
    Read.expect ")"
    modify fun reader => { reader with flags := outer }
    pure (group number body)

end

/-- The pattern that a text writes down, if it is well formed. -/
def read? (text : Text) : Option Pattern :=
  match (readChoice (5 * text.length + 5)).run ⟨text, 0, ⟨false, false⟩⟩ with
  | some (pattern, reader) => if reader.rest.isEmpty then some pattern else none
  | none => none

end ScriptCheck.Pattern
