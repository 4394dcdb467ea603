import TrapFacts.Text.Digits

/-!
Strings, keys and blanks of TOML.
-/

namespace TrapFacts.Toml

open Digits (hexValue? natOfDigits)

def isBlank (c : Char) : Bool :=
  c = ' ' || c = '\t'

def skipBlanks (cs : List Char) : List Char :=
  cs.dropWhile isBlank

/-- A character that may stand in comments and strings: no control character but the tab. -/
def isPlain (c : Char) : Bool :=
  c = '\t' || (0x20 ≤ c.toNat && c.toNat ≠ 0x7F)

/-- What follows the line break in front. -/
def newline? : List Char → Option (List Char)
  | '\n' :: cs => some cs
  | '\r' :: '\n' :: cs => some cs
  | _ => none

/-- What follows the comment in front, if there is one. -/
def skipComment : List Char → List Char
  | '#' :: cs => cs.dropWhile isPlain
  | cs => cs

/-- What follows the end of a line: blanks and a comment may stand before it. -/
def lineEnd? (cs : List Char) : Option (List Char) :=
  match skipComment (skipBlanks cs) with
  | [] => some []
  | rest => newline? rest

/-- The character that stands after a backslash, those by number aside. -/
def escaped? : Char → Option Char
  | '"' => some '"'
  | '\\' => some '\\'
  | 'b' => some '\x08'
  | 'f' => some '\x0c'
  | 'n' => some '\n'
  | 'r' => some '\r'
  | 't' => some '\t'
  | _ => none

/-- The character with a number that is written in digits of base sixteen. -/
def charOfHex? (digits : List Char) : Option Char :=
  match digits.mapM hexValue? with
  | none => none
  | some ds =>
    let n := natOfDigits 16 ds
    if n < 0xD800 || (0xDFFF < n && n < 0x110000) then some (Char.ofNat n) else none

/-- A string of one line: the characters up to the closing quote, in reverse, and the rest. -/
def scanBasic (acc : List Char) : List Char → Option (List Char × List Char)
  | [] => none
  | '"' :: rest => some (acc, rest)
  | '\\' :: 'u' :: a :: b :: c :: d :: rest =>
    match charOfHex? [a, b, c, d] with
    | some x => scanBasic (x :: acc) rest
    | none => none
  | '\\' :: 'U' :: a :: b :: c :: d :: e :: f :: g :: h :: rest =>
    match charOfHex? [a, b, c, d, e, f, g, h] with
    | some x => scanBasic (x :: acc) rest
    | none => none
  | '\\' :: c :: rest =>
    match escaped? c with
    | some x => scanBasic (x :: acc) rest
    | none => none
  | c :: rest => if c ≠ '\\' && isPlain c then scanBasic (c :: acc) rest else none

/-- A string of one line without escapes. -/
def scanLiteral (acc : List Char) : List Char → Option (List Char × List Char)
  | [] => none
  | '\'' :: rest => some (acc, rest)
  | c :: rest => if isPlain c then scanLiteral (c :: acc) rest else none

/-- Up to two more quotes before the three that close a string belong to it. -/
def closeLines (quote : Char) (acc : List Char) : List Char → List Char × List Char
  | a :: b :: rest =>
    if a = quote then
      if b = quote then (quote :: quote :: acc, rest) else (quote :: acc, b :: rest)
    else (acc, a :: b :: rest)
  | [a] => if a = quote then (quote :: acc, []) else (acc, [a])
  | [] => (acc, [])

/-- A string of several lines. Behind a backslash at the end of a line, blanks and line breaks are
skipped. -/
def scanBasicLines (skipping : Bool) (acc : List Char) :
    List Char → Option (List Char × List Char)
  | [] => none
  | '"' :: '"' :: '"' :: rest => some (closeLines '"' acc rest)
  | '\\' :: 'u' :: a :: b :: c :: d :: rest =>
    match charOfHex? [a, b, c, d] with
    | some x => scanBasicLines false (x :: acc) rest
    | none => none
  | '\\' :: 'U' :: a :: b :: c :: d :: e :: f :: g :: h :: rest =>
    match charOfHex? [a, b, c, d, e, f, g, h] with
    | some x => scanBasicLines false (x :: acc) rest
    | none => none
  | '\\' :: c :: rest =>
    match escaped? c with
    | some x => scanBasicLines false (x :: acc) rest
    | none =>
      if (newline? (skipBlanks (c :: rest))).isSome then scanBasicLines true acc (c :: rest)
      else none
  | '\r' :: '\n' :: rest =>
    scanBasicLines skipping (if skipping then acc else '\n' :: acc) rest
  | c :: rest =>
    if skipping && (isBlank c || c = '\n') then scanBasicLines true acc rest
    else if c ≠ '\\' && (isPlain c || c = '\n') then scanBasicLines false (c :: acc) rest
    else none

/-- A string of several lines without escapes. -/
def scanLiteralLines (acc : List Char) : List Char → Option (List Char × List Char)
  | [] => none
  | '\'' :: '\'' :: '\'' :: rest => some (closeLines '\'' acc rest)
  | '\r' :: '\n' :: rest => scanLiteralLines ('\n' :: acc) rest
  | c :: rest => if isPlain c || c = '\n' then scanLiteralLines (c :: acc) rest else none

def textOf (r : List Char × List Char) : String × List Char :=
  (String.ofList r.1.reverse, r.2)

/-- A line break right behind the opening quotes does not count. -/
def afterOpening (cs : List Char) : List Char :=
  (newline? cs).getD cs

/-- The string in front, and the rest. -/
def scanString : List Char → Option (String × List Char)
  | '"' :: '"' :: '"' :: rest => (scanBasicLines false [] (afterOpening rest)).map textOf
  | '"' :: rest => (scanBasic [] rest).map textOf
  | '\'' :: '\'' :: '\'' :: rest => (scanLiteralLines [] (afterOpening rest)).map textOf
  | '\'' :: rest => (scanLiteral [] rest).map textOf
  | _ => none

def isBareKeyChar (c : Char) : Bool :=
  c.isAlphanum || c = '_' || c = '-'

/-- A key without dots, and the rest. -/
def scanSimpleKey (cs : List Char) : Option (String × List Char) :=
  match cs with
  | '"' :: rest => (scanBasic [] rest).map textOf
  | '\'' :: rest => (scanLiteral [] rest).map textOf
  | cs =>
    match cs.span isBareKeyChar with
    | ([], _) => none
    | (name, rest) => some (String.ofList name, rest)

/-- A key of so many names at most, set apart by dots, and the rest. -/
def scanKey : Nat → List Char → Option (List String × List Char)
  | 0, _ => none
  | room + 1, cs =>
    match scanSimpleKey (skipBlanks cs) with
    | none => none
    | some (name, rest) =>
      match skipBlanks rest with
      | '.' :: rest => (scanKey room rest).map fun r => (name :: r.1, r.2)
      | rest => some ([name], rest)

end TrapFacts.Toml
