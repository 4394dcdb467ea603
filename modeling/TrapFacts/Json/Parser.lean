import TrapFacts.Json.Basic
import TrapFacts.Text.Digits

/-!
Reading JSON. The text is one value with nothing but blanks around it.
-/

namespace TrapFacts.Json

open Digits (isDigit digitValue hexValue? natOfDigits splitSign withSign)

def isBlank (c : Char) : Bool :=
  c == ' ' || c == '\n' || c == '\t' || c == '\r'

def skipBlanks (cs : List Char) : List Char :=
  cs.dropWhile isBlank

/-- A part of a string: a character as such, or a code unit that was escaped by number. -/
inductive Piece where
  | char (c : Char)
  | unit (code : Nat)

/-- The character that stands after a backslash, `u` aside. -/
def escaped? : Char → Option Char
  | '"' => some '"'
  | '\\' => some '\\'
  | '/' => some '/'
  | 'b' => some '\x08'
  | 'f' => some '\x0c'
  | 'n' => some '\n'
  | 'r' => some '\r'
  | 't' => some '\t'
  | _ => none

/-- The pieces up to the closing quote, and what follows it. -/
def pieces (acc : List Piece) : List Char → Option (List Piece × List Char)
  | [] => none
  | '"' :: rest => some (acc.reverse, rest)
  | '\\' :: 'u' :: a :: b :: c :: d :: rest =>
    match hexValue? a, hexValue? b, hexValue? c, hexValue? d with
    | some a, some b, some c, some d => pieces (.unit (natOfDigits 16 [a, b, c, d]) :: acc) rest
    | _, _, _, _ => none
  | '\\' :: e :: rest =>
    match escaped? e with
    | some c => pieces (.char c :: acc) rest
    | none => none
  | c :: rest => if c.toNat < 0x20 then none else pieces (.char c :: acc) rest

def isLead (code : Nat) : Bool :=
  0xD800 ≤ code && code < 0xDC00

def isTrail (code : Nat) : Bool :=
  0xDC00 ≤ code && code < 0xE000

/-- The text of the pieces. A lead unit and the trail unit behind it make one character;
either of them alone has no text. -/
def piecesText (acc : List Char) : List Piece → Option String
  | [] => some (String.ofList acc.reverse)
  | .char c :: rest => piecesText (c :: acc) rest
  | .unit hi :: .unit lo :: rest =>
    if isLead hi then
      if isTrail lo then
        piecesText (Char.ofNat (0x10000 + (hi - 0xD800) * 0x400 + (lo - 0xDC00)) :: acc) rest
      else none
    else if isTrail hi then none
    else piecesText (Char.ofNat hi :: acc) (.unit lo :: rest)
  | .unit code :: rest =>
    if isLead code || isTrail code then none else piecesText (Char.ofNat code :: acc) rest

/-- A string, its opening quote already read. -/
def scanString (cs : List Char) : Option (Option String × List Char) :=
  (pieces [] cs).map fun r => (piecesText [] r.1, r.2)

/-- The digits in front, and the rest. -/
def scanDigits (cs : List Char) : List Nat × List Char :=
  let r := cs.span isDigit
  (r.1.map digitValue, r.2)

/-- The digits behind a point: none at all without a point, at least one with it. -/
def scanFraction : List Char → Option (Option (List Nat) × List Char)
  | '.' :: rest =>
    match scanDigits rest with
    | ([], _) => none
    | (ds, rest) => some (some ds, rest)
  | cs => some (none, cs)

/-- The exponent: none at all without its letter, at least one digit with it. -/
def scanExponent : List Char → Option (Option Int × List Char)
  | c :: rest =>
    if c = 'e' || c = 'E' then
      let (negative, rest) := splitSign rest
      match scanDigits rest with
      | ([], _) => none
      | (ds, rest) => some (some (withSign negative (natOfDigits 10 ds)), rest)
    else some (none, c :: rest)
  | [] => some (none, [])

/-- The digits before the point; a zero stands alone. -/
def scanWhole : List Char → Option (List Nat × List Char)
  | '0' :: rest => some ([0], rest)
  | cs =>
    match scanDigits cs with
    | ([], _) => none
    | r => some r

def scanNumber (cs : List Char) : Option (Number × List Char) := do
  let (negative, cs) := match cs with
    | '-' :: rest => (true, rest)
    | _ => (false, cs)
  let (whole, cs) ← scanWhole cs
  let (fraction, cs) ← scanFraction cs
  let (exponent, cs) ← scanExponent cs
  match fraction, exponent with
  | none, none => some (.whole negative (natOfDigits 10 whole), cs)
  | _, _ =>
    let ds := fraction.getD []
    some (.decimal negative (natOfDigits 10 (whole ++ ds)) (exponent.getD 0 - ds.length), cs)

mutual

/-- The value in front, and the rest of the text. -/
def scanValue : Nat → List Char → Option (Json × List Char)
  | 0, _ => none
  | fuel + 1, cs =>
    match cs with
    | '"' :: rest => (scanString rest).map fun r => (.string r.1, r.2)
    | '[' :: rest =>
      match skipBlanks rest with
      | ']' :: rest => some (.array [], rest)
      | rest => (scanItems fuel rest).map fun r => (.array r.1, r.2)
    | '\x7b' :: rest =>
      match skipBlanks rest with
      | '\x7d' :: rest => some (.object [], rest)
      | rest => (scanFields fuel rest).map fun r => (.object r.1, r.2)
    | 'n' :: 'u' :: 'l' :: 'l' :: rest => some (.null, rest)
    | 't' :: 'r' :: 'u' :: 'e' :: rest => some (.bool true, rest)
    | 'f' :: 'a' :: 'l' :: 's' :: 'e' :: rest => some (.bool false, rest)
    | cs => (scanNumber cs).map fun r => (.number r.1, r.2)

/-- The items of a list that is not empty, up to its closing bracket. -/
def scanItems : Nat → List Char → Option (List Json × List Char)
  | 0, _ => none
  | fuel + 1, cs => do
    let (item, rest) ← scanValue fuel (skipBlanks cs)
    match skipBlanks rest with
    | ',' :: rest => do
      let (items, rest) ← scanItems fuel rest
      some (item :: items, rest)
    | ']' :: rest => some ([item], rest)
    | _ => none

/-- The fields of an object that is not empty, up to its closing brace. -/
def scanFields : Nat → List Char → Option (List (Option String × Json) × List Char)
  | 0, _ => none
  | fuel + 1, cs => do
    let '"' :: rest := skipBlanks cs | none
    let (name, rest) ← scanString rest
    let ':' :: rest := skipBlanks rest | none
    let (value, rest) ← scanValue fuel (skipBlanks rest)
    match skipBlanks rest with
    | ',' :: rest => do
      let (fields, rest) ← scanFields fuel rest
      some ((name, value) :: fields, rest)
    | '\x7d' :: rest => some ([(name, value)], rest)
    | _ => none

end

/-- Every step of the scan reads a character or is followed by one that does,
so twice the length of the text is enough. -/
def parse? (s : String) : Option Json := do
  let cs := s.toList
  let (value, rest) ← scanValue (2 * cs.length + 2) (skipBlanks cs)
  match skipBlanks rest with
  | [] => some value
  | _ => none

end TrapFacts.Json
