import ScriptCheck.Text.Basic

/-!
# TOML values and tables

No setting is a number with a fraction or a date, so values of these two types are only
told apart from others and not kept.

A document defines a table statement by statement. A table may be named by a header of
its own, implied by the header of a table inside it, or made by a dotted key. A header
may name an implied table once and no other; a dotted key may only add to tables that
dotted keys made.
-/

namespace ScriptCheck

inductive Toml where
  | string (value : Text)
  | integer (value : Int)
  | float
  | boolean (value : Bool)
  | date
  | array (items : List Toml)
  | table (members : List (Text × Toml))
  deriving Repr

namespace Toml

/-- What brought a table into being. -/
inductive Origin where
  | header
  | implied
  | dotted
  deriving DecidableEq, Repr

/-- What a key stands for while the document is being read. -/
inductive Entry where
  | value (value : Toml)
  | table (origin : Origin) (entries : List (Text × Entry))
  /-- An array of tables, the latest first. -/
  | tables (latest : List (Text × Entry)) (earlier : List (List (Text × Entry)))

/-- The keys of a table in the order of their definition. -/
abbrev Entries := List (Text × Entry)

/-- Give a key an entry, in the place of the one it has. -/
def put (key : Text) (entry : Entry) : Entries → Entries
  | [] => [(key, entry)]
  | (other, kept) :: rest =>
    if other = key then (key, entry) :: rest else (other, kept) :: put key entry rest

/-- Change the table that a header's path leads to. The tables on the way are implied
unless they are there; an array of tables stands for its latest one. -/
def changeAt (change : Entries → Option Entries) : List Text → Entries → Option Entries
  | [], entries => change entries
  | key :: path, entries =>
    match entries.lookup key with
    | none => do
      let inner ← changeAt change path []
      pure (put key (.table .implied inner) entries)
    | some (.value _) => none
    | some (.table origin inner) => do
      let inner ← changeAt change path inner
      pure (put key (.table origin inner) entries)
    | some (.tables latest earlier) => do
      let latest ← changeAt change path latest
      pure (put key (.tables latest earlier) entries)

/-- Define a table by its header. -/
def openTable (key : Text) (entries : Entries) : Option Entries :=
  match entries.lookup key with
  | none => some (put key (.table .header []) entries)
  | some (.table .implied inner) => some (put key (.table .header inner) entries)
  | some _ => none

/-- Add a table to an array of tables. -/
def openElement (key : Text) (entries : Entries) : Option Entries :=
  match entries.lookup key with
  | none => some (put key (.tables [] []) entries)
  | some (.tables latest earlier) => some (put key (.tables [] (latest :: earlier)) entries)
  | some _ => none

/-- Define a key. -/
def define (key : Text) (value : Toml) (entries : Entries) : Option Entries :=
  match entries.lookup key with
  | none => some (put key (.value value) entries)
  | some _ => none

/-- Define a key that a dotted path leads to. -/
def defineAt (key : Text) (value : Toml) : List Text → Entries → Option Entries
  | [], entries => define key value entries
  | step :: path, entries =>
    match entries.lookup step with
    | none => do
      let inner ← defineAt key value path []
      pure (put step (.table .dotted inner) entries)
    | some (.table origin inner) =>
      if origin = .header ∨ (origin = .implied ∧ path.isEmpty) then none
      else do
        let inner ← defineAt key value path inner
        pure (put step (.table origin inner) entries)
    | some (.tables latest earlier) =>
      if path.isEmpty then none
      else do
        let latest ← defineAt key value path latest
        pure (put step (.tables latest earlier) entries)
    | some (.value _) => none

mutual

/-- The value of an entry once the document is read. -/
def ofEntry : Entry → Toml
  | .value value => value
  | .table _ entries => table (ofEntries entries)
  | .tables latest earlier => array (ofElements earlier ++ [table (ofEntries latest)])

def ofEntries : List (Text × Entry) → List (Text × Toml)
  | [] => []
  | (key, entry) :: rest => (key, ofEntry entry) :: ofEntries rest

/-- The elements of an array of tables, given the latest first. -/
def ofElements : List (List (Text × Entry)) → List Toml
  | [] => []
  | entries :: rest => ofElements rest ++ [table (ofEntries entries)]

end

/-- A statement of a document. -/
inductive Statement where
  /-- The header of a table, as the path to its parent and its key. -/
  | openTable (path : List Text) (key : Text)
  /-- The header of an element of an array of tables. -/
  | openElement (path : List Text) (key : Text)
  | define (path : List Text) (key : Text) (value : Toml)

/-- Take statements in order, `current` being the path of the table last opened. -/
def build (current : List Text) (entries : Entries) : List Statement → Option Entries
  | [] => some entries
  | .openTable path key :: rest => do
    build (path ++ [key]) (← changeAt (openTable key) path entries) rest
  | .openElement path key :: rest => do
    build (path ++ [key]) (← changeAt (openElement key) path entries) rest
  | .define path key value :: rest => do
    build current (← changeAt (defineAt key value path) current entries) rest

/-- The table that the members of an inline table make, if no key is defined twice. -/
def inline? (members : List (List Text × Text × Toml)) : Option Toml := do
  let entries ← members.foldlM
    (fun entries (path, key, value) => defineAt key value path entries) []
  pure (table (ofEntries entries))

/-- The member of a table. -/
def member? (name : String) : Toml → Option Toml
  | table members => members.lookup name.toList
  | _ => none

end Toml

end ScriptCheck
