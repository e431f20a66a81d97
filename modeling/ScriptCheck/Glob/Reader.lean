import ScriptCheck.Glob.Basic

/-!
# Reading a glob

A star is written `*`, one byte `?`, a class `[a-z]` or `[!a-z]`, and a choice
`{one,other}`. Two stars between slashes, or between a slash and an end, stand for any
number of folders; elsewhere they are two stars. A backslash takes its meaning from the
next character, except in a class.

A glob is invalid when a class or a choice is left open, a choice is closed that was not
opened, a range runs backwards, or nothing follows a backslash. A reader may be lenient
about a class that is left open and take its bracket for itself.
-/

namespace ScriptCheck.Glob

/-! ### Classes -/

/-- What comes of reading a class. -/
inductive ClassReading where
  | closed (ranges : List (Char × Char)) (rest : Text)
  | left
  | backwards

/-- Read a class after its first character: the ranges so far, last one first, and whether
the last one is waiting for its upper end. -/
def readClassFrom (ranges : List (Char × Char)) (waiting : Bool) : Text → ClassReading
  | [] => .left
  | ']' :: rest => .closed (if waiting then ranges.reverse ++ [('-', '-')] else ranges.reverse) rest
  | char :: rest =>
    match ranges, waiting with
    | (low, _) :: earlier, true =>
      if char < low then .backwards else readClassFrom ((low, char) :: earlier) false rest
    | _, _ =>
      if char = '-' then readClassFrom ranges true rest
      else readClassFrom ((char, char) :: ranges) false rest

/-- Read a class after its bracket and its sign. The first character stands for itself,
whatever it is. -/
def readClass : Text → ClassReading
  | [] => .left
  | char :: rest => readClassFrom [(char, char)] false rest

/-! ### Parts -/

/-- How far a glob has been read. -/
structure Reading where
  /-- The parts of the branch that is being read. -/
  parts : List Part
  /-- The branches before it in its choice. -/
  branches : List (List Part)
  /-- The branches and parts in front of each open choice, innermost first. -/
  outside : List (List (List Part) × List Part)
  previous : Option Char
  /-- Brackets open classes. -/
  classes : Bool

namespace Reading

def start : Reading := ⟨[], [], [], none, true⟩

/-- A choice is open. -/
def isNested (reading : Reading) : Bool := !reading.outside.isEmpty

/-- Note the character that was read last. -/
def after (reading : Reading) (char : Char) : Reading := { reading with previous := some char }

def add (reading : Reading) (parts : List Part) : Reading :=
  { reading with parts := reading.parts ++ parts }

/-- Open a choice. -/
def openChoice (reading : Reading) : Reading :=
  { reading with
    parts := [], branches := [], outside := (reading.branches, reading.parts) :: reading.outside }

/-- Close the innermost choice. -/
def closeChoice? (reading : Reading) : Option Reading :=
  match reading.outside with
  | [] => none
  | (branches, parts) :: outside =>
    some { reading with
      parts := parts ++ [.choice (reading.branches ++ [reading.parts])],
      branches := branches, outside := outside }

/-- A comma goes on to the next branch of a choice and stands for itself elsewhere. -/
def addComma (reading : Reading) : Reading :=
  if reading.isNested then
    { reading with parts := [], branches := reading.branches ++ [reading.parts] }
  else
    reading.add [.literal ',']

/-- Put folders in the place of the slash that was read last. Folders that stand there
already are enough. -/
def addFolders (reading : Reading) (folders : Part) : Reading :=
  match reading.parts.getLast? with
  | some .leading => reading
  | some .inside => reading
  | _ => { reading with parts := reading.parts.dropLast ++ [folders] }

/-- Whether two stars that come next may stand for folders. Within a choice, a comma or
a brace in front of them counts as a slash. -/
def isAtSlash (reading : Reading) : Bool :=
  reading.previous == some '/' ||
    (reading.isNested && (reading.previous == some ',' || reading.previous == some '\x7b'))

/-- Take two stars, given what follows them, and the slash behind them where they stand
for folders. -/
def addStars (reading : Reading) (rest : Text) : Reading × Text :=
  let plain := ((reading.add [.star, .star]).after '*', rest)
  if reading.parts.isEmpty then
    match rest with
    | [] => ((reading.add [.leading]).after '*', [])
    | '/' :: rest => ((reading.add [.leading]).after '/', rest)
    | _ => plain
  else if reading.isAtSlash then
    match rest with
    | [] => ((reading.addFolders .inside).after '*', [])
    | '/' :: rest => ((reading.addFolders .between).after '/', rest)
    | char :: _ =>
      if reading.isNested && (char == ',' || char == '\x7d') then
        ((reading.addFolders .inside).after '*', rest)
      else plain
  else plain

end Reading

/-- The sign of a class, and what follows it. -/
def classSign : Text → Bool × Text
  | '!' :: rest => (true, rest)
  | '^' :: rest => (true, rest)
  | rest => (false, rest)

/-- Take a bracket, given what follows it. -/
def Reading.addClass? (reading : Reading) (lenient : Bool) (rest : Text) :
    Option (Reading × Text) :=
  let literal := ({ reading.add [.literal '['] with classes := false }.after '[', rest)
  if reading.classes then
    let (negated, inside) := classSign rest
    match readClass inside with
    | .closed ranges rest => some ((reading.add [.oneOf negated ranges]).after ']', rest)
    | .left => if lenient then some literal else none
    | .backwards => none
  else some literal

/-- Read parts until the text ends. Every step takes a character, so a bound of the
length of the text is enough. -/
def readFrom? (lenient : Bool) : Nat → Reading → Text → Option Glob
  | _, reading, [] => if reading.isNested then none else some reading.parts
  | 0, _, _ :: _ => none
  | bound + 1, reading, '*' :: '*' :: rest =>
    let (next, rest) := reading.addStars rest
    readFrom? lenient bound next rest
  | bound + 1, reading, '\\' :: rest =>
    match rest with
    | [] => none
    | char :: rest => readFrom? lenient bound ((reading.add [.literal char]).after char) rest
  | bound + 1, reading, '[' :: rest => do
    let (next, rest) ← reading.addClass? lenient rest
    readFrom? lenient bound next rest
  | bound + 1, reading, char :: rest => do
    let next ← match char with
      | '?' => some (reading.add [.any])
      | '*' => some (reading.add [.star])
      | '\x7b' => some reading.openChoice
      | '\x7d' => reading.closeChoice?
      | ',' => some reading.addComma
      | _ => some (reading.add [.literal char])
    readFrom? lenient bound (next.after char) rest

/-- The glob that a text writes. -/
def read? (text : Text) : Option Glob := readFrom? false text.length .start text

/-- The glob that a text writes, where a bracket that opens no class stands for itself. -/
def readLeniently? (text : Text) : Option Glob := readFrom? true text.length .start text

end ScriptCheck.Glob
