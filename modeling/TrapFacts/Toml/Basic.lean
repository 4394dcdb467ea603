/-!
TOML documents as trees. A table remembers how it came about, because that decides which later lines
may add to it.
-/

namespace TrapFacts

/-- How a table came about. -/
inductive Toml.Origin where
  /-- It has a header of its own. -/
  | header
  /-- It was named on the way to the table of a header. -/
  | above
  /-- It was named on the way to a key. -/
  | dotted
  /-- It is written in braces, and so complete. -/
  | braces
  deriving DecidableEq

/-- A value of a document. No number with a fraction and no date is ever looked at, so their values
are not kept. -/
inductive Toml where
  | string (text : String)
  | integer (value : Int)
  | float
  | boolean (value : Bool)
  | dateTime
  | array (items : List Toml)
  /-- An array whose items are tables with headers. -/
  | tables (items : List Toml)
  | table (origin : Toml.Origin) (entries : List (String × Toml))

namespace Toml

abbrev Entries := List (String × Toml)

/-- Change the value of a name; a new name comes last. -/
def update (name : String) (change : Option Toml → Option Toml) : Entries → Option Entries
  | [] => (change none).map fun v => [(name, v)]
  | (n, v) :: rest =>
    if n = name then (change (some v)).map fun v => (n, v) :: rest
    else (update name change rest).map fun rest => (n, v) :: rest

/-- Change the entries of the last of the tables. -/
def updateLast (change : Entries → Option Entries) : List Toml → Option (List Toml)
  | [] => none
  | [table origin entries] => (change entries).map fun entries => [table origin entries]
  | [_] => none
  | item :: items => (updateLast change items).map fun items => item :: items

/-- Give a name a value that it must not have yet. -/
def define (name : String) (value : Toml) : Entries → Option Entries :=
  update name fun
    | none => some value
    | some _ => none

/-- Change the entries of the table that a header names. What is missing on the way is made. -/
def within (change : Entries → Option Entries) : List String → Entries → Option Entries
  | [] => change
  | name :: path => update name fun
    | none => (within change path []).map (table .above)
    | some (table .braces _) => none
    | some (table origin entries) => (within change path entries).map (table origin)
    | some (tables items) => (updateLast (within change path) items).map tables
    | some _ => none

/-- Open the table of a header. Only once, but a table may have been named on the way before. -/
def openTable (name : String) : Entries → Option Entries :=
  update name fun
    | none => some (table .header [])
    | some (table .above entries) => some (table .header entries)
    | some _ => none

/-- Add a table to an array of tables. -/
def addTable (name : String) : Entries → Option Entries :=
  update name fun
    | none => some (tables [table .header []])
    | some (tables items) => some (tables (items ++ [table .header []]))
    | some _ => none

/-- Give a dotted key a value. A table with a header is not reached by dotted keys; one named on the
way to a header is only passed through. -/
def assign (value : Toml) : List String → Entries → Option Entries
  | [] => fun _ => none
  | [name] => define name value
  | name :: next :: path => update name fun
    | none => (assign value (next :: path) []).map (table .dotted)
    | some (table .dotted entries) => (assign value (next :: path) entries).map (table .dotted)
    | some (table .above entries) =>
      if path.isEmpty then none else (assign value (next :: path) entries).map (table .above)
    | some (tables items) =>
      if path.isEmpty then none else (updateLast (assign value (next :: path)) items).map tables
    | some _ => none

end Toml

end TrapFacts
