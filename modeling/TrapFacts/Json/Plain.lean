import TrapFacts.Json.Basic
import TrapFacts.Text.Decimal

/-!
Plain values: every string has a text, every number fits a double, and brackets nest only so deep.
-/

namespace TrapFacts.Json

def Number.fitsDouble : Number → Bool
  | .whole _ n => Decimal.fitsProduct n 0
  | .decimal _ n scale => Decimal.fitsProduct n scale

mutual

/-- Plain, with at most `room` brackets open at once. -/
def isPlain (room : Nat) : Json → Bool
  | .null => true
  | .bool _ => true
  | .number n => n.fitsDouble
  | .string s => s.isSome
  | .array items => 0 < room && allPlain (room - 1) items
  | .object fields => 0 < room && allPlainFields (room - 1) fields

def allPlain (room : Nat) : List Json → Bool
  | [] => true
  | item :: items => item.isPlain room && allPlain room items

def allPlainFields (room : Nat) : List (Option String × Json) → Bool
  | [] => true
  | (name, value) :: fields => name.isSome && value.isPlain room && allPlainFields room fields

end

end TrapFacts.Json
