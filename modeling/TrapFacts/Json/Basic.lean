/-!
JSON values as they are written: a number keeps its notation, a string its text if it has one.
-/

namespace TrapFacts

/-- Digits alone, or `mantissa * 10 ^ scale` for a number with a fraction or an exponent. -/
inductive Json.Number where
  | whole (negative : Bool) (magnitude : Nat)
  | decimal (negative : Bool) (mantissa : Nat) (scale : Int)
  deriving DecidableEq

/-- A string that escapes an unpaired surrogate has no text. -/
inductive Json where
  | null
  | bool (value : Bool)
  | number (value : Json.Number)
  | string (text : Option String)
  | array (items : List Json)
  | object (fields : List (Option String × Json))

namespace Json

instance : Inhabited Json := ⟨.null⟩

def ofString (s : String) : Json :=
  .string (some s)

def ofNat (n : Nat) : Json :=
  .number (.whole false n)

def ofInt (n : Int) : Json :=
  .number (.whole (n < 0) n.natAbs)

def ofFields (fields : List (String × Json)) : Json :=
  .object (fields.map fun f => (some f.1, f.2))

def ofOption {α : Type} (encode : α → Json) : Option α → Json
  | none => .null
  | some a => encode a

def ofList {α : Type} (encode : α → Json) (items : List α) : Json :=
  .array (items.map encode)

def isNull : Json → Bool
  | .null => true
  | _ => false

/-- The value of the last field of that name. -/
def get? (name : String) : Json → Option Json
  | .object fields => (fields.reverse.find? (·.1 == some name)).map (·.2)
  | _ => none

def text? : Json → Option String
  | .string s => s
  | _ => none

def bool? : Json → Option Bool
  | .bool b => some b
  | _ => none

def items? : Json → Option (List Json)
  | .array xs => some xs
  | _ => none

/-- A number written without sign, fraction and exponent. -/
def nat? : Json → Option Nat
  | .number (.whole false n) => some n
  | _ => none

def int? : Json → Option Int
  | .number (.whole true n) => some (-n)
  | .number (.whole false n) => some n
  | _ => none

/-- One word of a vocabulary: the word, or an object with that word as its only key and no value. -/
def word? : Json → Option String
  | .string s => s
  | .object [(s, .null)] => s
  | _ => none

end Json

end TrapFacts
