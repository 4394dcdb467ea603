import TrapFacts.Toml.Scalar
import TrapFacts.Toml.Text

/-!
Reading TOML.
-/

namespace TrapFacts.Toml

/-- How many names a dotted key may have, and how many brackets and braces may be open at once. -/
def nesting : Nat :=
  79

/-- What follows blanks, line breaks and comments. A comment ends with its line. -/
def skipLines : Nat → List Char → Option (List Char)
  | 0, _ => none
  | fuel + 1, cs =>
    match skipBlanks cs with
    | '#' :: rest => newline? (skipComment ('#' :: rest)) >>= skipLines fuel
    | '\n' :: rest => skipLines fuel rest
    | '\r' :: '\n' :: rest => skipLines fuel rest
    | rest => some rest

mutual

/-- The value in front, and the rest. `room` is how many brackets and braces may still open. -/
def scanValue : (fuel room : Nat) → List Char → Option (Toml × List Char)
  | 0, _, _ => none
  | _ + 1, _, '"' :: rest => (scanString ('"' :: rest)).map fun r => (.string r.1, r.2)
  | _ + 1, _, '\'' :: rest => (scanString ('\'' :: rest)).map fun r => (.string r.1, r.2)
  | _ + 1, 0, '[' :: _ => none
  | _ + 1, 0, '\x7b' :: _ => none
  | fuel + 1, room + 1, '[' :: rest =>
    (scanItems fuel room rest).map fun r => (.array r.1, r.2)
  | fuel + 1, room + 1, '\x7b' :: rest =>
    match skipBlanks rest with
    | '\x7d' :: rest => some (.table .braces [], rest)
    | rest => (scanPairs fuel room [] rest).map fun r => (.table .braces r.1, r.2)
  | _ + 1, _, cs => scanScalar cs

/-- The items of an array up to its closing bracket. A comma may follow the last one. -/
def scanItems : (fuel room : Nat) → List Char → Option (List Toml × List Char)
  | 0, _, _ => none
  | fuel + 1, room, cs => do
    match ← skipLines (cs.length + 1) cs with
    | ']' :: rest => some ([], rest)
    | cs =>
      let (item, rest) ← scanValue fuel room cs
      match ← skipLines (rest.length + 1) rest with
      | ']' :: rest => some ([item], rest)
      | ',' :: rest => (scanItems fuel room rest).map fun r => (item :: r.1, r.2)
      | _ => none

/-- The entries of a table in braces up to its closing brace. -/
def scanPairs : (fuel room : Nat) → Entries → List Char → Option (Entries × List Char)
  | 0, _, _, _ => none
  | fuel + 1, room, entries, cs => do
    let (path, rest) ← scanKey nesting cs
    match rest with
    | '=' :: rest =>
      let (value, rest) ← scanValue fuel room (skipBlanks rest)
      let entries ← assign value path entries
      match skipBlanks rest with
      | '\x7d' :: rest => some (entries, rest)
      | ',' :: rest => scanPairs fuel room entries rest
      | _ => none
    | _ => none

end

/-- The document so far, and the table that keys go to. -/
structure Draft where
  entries : Entries := []
  path : List String := []

namespace Draft

/-- Open a table by a way of opening its last name. -/
def enter (d : Draft) (opening : String → Entries → Option Entries) (path : List String) :
    Option Draft :=
  match path.reverse with
  | [] => none
  | name :: above =>
    (within (opening name) above.reverse d.entries).map fun entries => { entries, path }

/-- Give a key of the open table a value. -/
def add (d : Draft) (path : List String) (value : Toml) : Option Draft :=
  (within (assign value path) d.path d.entries).map fun entries => { d with entries }

end Draft

/-- One line in front, and the rest. -/
def scanLine (d : Draft) (cs : List Char) : Option (Draft × List Char) :=
  match cs with
  | '[' :: '[' :: rest => do
    let (path, rest) ← scanKey nesting rest
    match rest with
    | ']' :: ']' :: rest => some (← d.enter addTable path, ← lineEnd? rest)
    | _ => none
  | '[' :: rest => do
    let (path, rest) ← scanKey nesting rest
    match rest with
    | ']' :: rest => some (← d.enter openTable path, ← lineEnd? rest)
    | _ => none
  | cs =>
    match lineEnd? cs with
    | some rest => some (d, rest)
    | none => do
      let (path, rest) ← scanKey nesting cs
      match rest with
      | '=' :: rest =>
        let (value, rest) ← scanValue (2 * rest.length + 2) nesting (skipBlanks rest)
        some (← d.add path value, ← lineEnd? rest)
      | _ => none

/-- All lines up to the end. -/
def scanLines : Nat → Draft → List Char → Option Draft
  | 0, _, _ => none
  | fuel + 1, d, cs =>
    match skipBlanks cs with
    | [] => some d
    | cs =>
      match scanLine d cs with
      | none => none
      | some (d, rest) => scanLines fuel d rest

/-- A mark of the byte order in front does not count. -/
def skipMark : List Char → List Char
  | '\ufeff' :: cs => cs
  | cs => cs

/-- The table of a whole document. Each line reads a character, so there are no more lines than
characters. -/
def parse? (s : String) : Option Toml :=
  let cs := skipMark s.toList
  (scanLines (cs.length + 1) {} cs).map fun d => .table .header d.entries

end TrapFacts.Toml
