import TrapFacts.Json.Basic

/-!
Writing JSON, on one line or indented.
-/

namespace TrapFacts.Json

def hexDigit (n : Nat) : Char :=
  if n < 10 then Char.ofNat ('0'.toNat + n) else Char.ofNat ('a'.toNat + (n - 10))

/-- Quotes, backslashes and control characters are escaped, and nothing else. -/
def escape (c : Char) : List Char :=
  match c with
  | '"' => ['\\', '"']
  | '\\' => ['\\', '\\']
  | '\x08' => ['\\', 'b']
  | '\x0c' => ['\\', 'f']
  | '\n' => ['\\', 'n']
  | '\r' => ['\\', 'r']
  | '\t' => ['\\', 't']
  | c =>
    if c.toNat < 0x20 then
      ['\\', 'u', '0', '0', hexDigit (c.toNat / 16), hexDigit (c.toNat % 16)]
    else [c]

/-- The characters of a string, its closing quote and what follows. -/
def printChars (rest : List Char) : List Char → List Char
  | [] => '"' :: rest
  | c :: cs => escape c ++ printChars rest cs

def printString (s : Option String) (rest : List Char) : List Char :=
  match s with
  | some s => '"' :: printChars rest s.toList
  | none => "\"\\ud800\"".toList ++ rest

def printNat (n : Nat) (rest : List Char) : List Char :=
  Nat.toDigits 10 n ++ rest

def printSign (negative : Bool) (rest : List Char) : List Char :=
  if negative then '-' :: rest else rest

def printNumber (n : Number) (rest : List Char) : List Char :=
  match n with
  | .whole negative n => printSign negative (printNat n rest)
  | .decimal negative n scale =>
    printSign negative (printNat n ('e' :: printSign (scale < 0) (printNat scale.natAbs rest)))

mutual

/-- The value on one line, and what follows. -/
def print : Json → List Char → List Char
  | .null, rest => "null".toList ++ rest
  | .bool true, rest => "true".toList ++ rest
  | .bool false, rest => "false".toList ++ rest
  | .number n, rest => printNumber n rest
  | .string s, rest => printString s rest
  | .array items, rest => '[' :: printItems items (']' :: rest)
  | .object fields, rest => '\x7b' :: printFields fields ('\x7d' :: rest)

def printItems : List Json → List Char → List Char
  | [], rest => rest
  | [item], rest => item.print rest
  | item :: items, rest => item.print (',' :: printItems items rest)

def printFields : List (Option String × Json) → List Char → List Char
  | [], rest => rest
  | [(name, value)], rest => printString name (':' :: value.print rest)
  | (name, value) :: fields, rest =>
    printString name (':' :: value.print (',' :: printFields fields rest))

end

def render (j : Json) : String :=
  String.ofList (j.print [])

/-- A new line, indented by two blanks for each level. -/
def newline (level : Nat) (rest : List Char) : List Char :=
  '\n' :: (List.replicate (2 * level) ' ' ++ rest)

mutual

/-- The value over several lines, and what follows. -/
def printIndented (level : Nat) : Json → List Char → List Char
  | .array (item :: items), rest =>
    '[' :: printIndentedItems (level + 1) (item :: items) (newline level (']' :: rest))
  | .object (field :: fields), rest =>
    '\x7b' :: printIndentedFields (level + 1) (field :: fields) (newline level ('\x7d' :: rest))
  | .array [], rest => '[' :: ']' :: rest
  | .object [], rest => '\x7b' :: '\x7d' :: rest
  | .null, rest => "null".toList ++ rest
  | .bool true, rest => "true".toList ++ rest
  | .bool false, rest => "false".toList ++ rest
  | .number n, rest => printNumber n rest
  | .string s, rest => printString s rest

def printIndentedItems (level : Nat) : List Json → List Char → List Char
  | [], rest => rest
  | [item], rest => newline level (item.printIndented level rest)
  | item :: items, rest =>
    newline level (item.printIndented level (',' :: printIndentedItems level items rest))

def printIndentedFields (level : Nat) : List (Option String × Json) → List Char → List Char
  | [], rest => rest
  | [(name, value)], rest =>
    newline level (printString name (':' :: ' ' :: value.printIndented level rest))
  | (name, value) :: fields, rest =>
    newline level (printString name
      (':' :: ' ' :: value.printIndented level (',' :: printIndentedFields level fields rest)))

end

/-- Every item and field on a line of its own, indented by two blanks per level. -/
def renderIndented (j : Json) : String :=
  String.ofList (j.printIndented 0 [])

end TrapFacts.Json
