import ScriptCheck.Toml.Scalar

/-!
# Reading TOML documents

A document is a list of statements, one to a line. Arrays may go over several lines and
hold comments; inline tables may not. Arrays and inline tables nest less than eighty
levels deep. A mark for the byte order at the start of a document is passed over.
-/

namespace ScriptCheck.Toml

/-- Arrays and inline tables nest less deep than this. -/
def nestingLimit : Nat := 80

/-- The rest of a text behind a comment, which ends in front of its newline. -/
def skipComment (text : Text) : Text :=
  match text with
  | '#' :: rest => rest.dropWhile isPlain
  | _ => text

/-! ### Keys -/

def isBareKeyChar (c : Char) : Bool := c.isAlphanum || c == '_' || c == '-'

/-- One key, bare or in quotes. -/
def readKey (text : Text) : Option (Text × Text) :=
  match text with
  | '\x22' :: rest => readBasic rest
  | '\x27' :: rest => readLiteral rest
  | _ =>
    match text.span isBareKeyChar with
    | ([], _) => none
    | key => some key

/-- Keys with dots between them, as the keys that lead to the last one and that one. -/
def readPath : Nat → Text → Option ((List Text × Text) × Text)
  | 0, _ => none
  | bound + 1, text => do
    let (key, rest) ← readKey text
    match skipSpace rest with
    | '.' :: behind => do
      let ((path, last), rest) ← readPath bound (skipSpace behind)
      pure ((key :: path, last), rest)
    | _ => pure (([], key), rest)

/-- A path of fewer keys than arrays may nest. -/
def readShortPath (text : Text) : Option ((List Text × Text) × Text) :=
  readPath (nestingLimit - 1) text

/-! ### Values -/

/-- The rest of a text behind blanks, newlines and comments; at most `bound` of them. -/
def skipLines : Nat → Text → Text
  | 0, text => text
  | bound + 1, text =>
    match text with
    | '#' :: _ => skipLines bound (skipComment text)
    | c :: rest =>
      if isSpace c then skipLines bound rest
      else match afterNewline? text with
        | some rest => skipLines bound rest
        | none => text
    | [] => []

/-- Skip everything between the items of an array. -/
def skipBetween (text : Text) : Text := skipLines (text.length + 1) text

mutual

/-- A value. `depth` is the number of levels already open and `bound` bounds the steps. -/
def readValue : Nat → Nat → Text → Option (Toml × Text)
  | 0, _, _ => none
  | bound + 1, depth, text =>
    match text with
    | '[' :: rest =>
      if depth + 1 < nestingLimit then do
        let (items, rest) ← readItems bound (depth + 1) rest
        pure (array items, rest)
      else
        none
    | '\x7b' :: rest =>
      if depth + 1 < nestingLimit then
        match skipSpace rest with
        | '\x7d' :: rest => some (table [], rest)
        | rest => do
          let (members, rest) ← readMembers bound (depth + 1) rest
          pure (← inline? members, rest)
      else
        none
    | 't' :: 'r' :: 'u' :: 'e' :: rest => some (boolean true, rest)
    | 'f' :: 'a' :: 'l' :: 's' :: 'e' :: rest => some (boolean false, rest)
    | c :: _ =>
      if c = '\x22' ∨ c = '\x27' then
        (readString text).map fun (value, rest) => (string value, rest)
      else readNumeral text
    | [] => none

/-- The items of an array and its closing bracket. A comma may stand behind the last. -/
def readItems : Nat → Nat → Text → Option (List Toml × Text)
  | 0, _, _ => none
  | bound + 1, depth, text =>
    match skipBetween text with
    | ']' :: rest => some ([], rest)
    | start => do
      let (item, rest) ← readValue bound depth start
      match skipBetween rest with
      | ',' :: rest => do
        let (items, rest) ← readItems bound depth rest
        pure (item :: items, rest)
      | ']' :: rest => pure ([item], rest)
      | _ => none

/-- The members of an inline table, at least one, and its closing bracket. -/
def readMembers : Nat → Nat → Text → Option (List (List Text × Text × Toml) × Text)
  | 0, _, _ => none
  | bound + 1, depth, text => do
    let ((path, key), rest) ← readShortPath (skipSpace text)
    let rest ← expect '=' (skipSpace rest)
    let (value, rest) ← readValue bound depth (skipSpace rest)
    match skipSpace rest with
    | ',' :: rest => do
      let (members, rest) ← readMembers bound depth rest
      pure ((path, key, value) :: members, rest)
    | '\x7d' :: rest => pure ([(path, key, value)], rest)
    | _ => none

end

/-! ### Documents -/

/-- A statement without what follows it on its line. -/
def readStatement (text : Text) : Option (Statement × Text) :=
  match text with
  | '[' :: '[' :: rest => do
    let ((path, key), rest) ← readShortPath (skipSpace rest)
    let rest ← expect ']' (skipSpace rest)
    let rest ← expect ']' rest
    pure (.openElement path key, rest)
  | '[' :: rest => do
    let ((path, key), rest) ← readShortPath (skipSpace rest)
    let rest ← expect ']' (skipSpace rest)
    pure (.openTable path key, rest)
  | _ => do
    let ((path, key), rest) ← readShortPath text
    let rest ← expect '=' (skipSpace rest)
    let rest := skipSpace rest
    let (value, rest) ← readValue (2 * rest.length + 2) 0 rest
    pure (.define path key value, rest)

/-- The statements of a document; at most `bound` lines. -/
def readStatements : Nat → Text → Option (List Statement)
  | 0, _ => none
  | bound + 1, text => do
    let start := skipSpace text
    let (statements, rest) ←
      if start.isEmpty ∨ start.head? = some '#' ∨ (afterNewline? start).isSome then
        pure ([], start)
      else do
        let (statement, rest) ← readStatement start
        pure ([statement], rest)
    let rest := skipComment (skipSpace rest)
    if rest.isEmpty then
      pure statements
    else do
      let others ← readStatements bound (← afterNewline? rest)
      pure (statements ++ others)

/-- The table that a document describes. -/
def read? (text : Text) : Option Toml := do
  let text := match text with
    | '\ufeff' :: rest => rest
    | _ => text
  let statements ← readStatements (text.length + 1) text
  let entries ← build [] [] statements
  pure (table (ofEntries entries))

end ScriptCheck.Toml
