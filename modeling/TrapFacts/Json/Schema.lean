import TrapFacts.Json.Basic

/-!
Reading typed values out of JSON. A record is an object with its fields by name, or a list with
its fields in order.
-/

namespace TrapFacts.Json

/-- A way to read a value of type `α`. -/
abbrev Decoder (α : Type) := Json → Option α

/-- A number of 32 bits. -/
def u32? (j : Json) : Option Nat :=
  j.nat?.filter (· < 0x100000000)

def list? {α : Type} (item : Decoder α) : Decoder (List α)
  | .array xs => xs.mapM item
  | _ => none

/-- All values that the fields give to a name. -/
def valuesOf (name : String) (fields : List (Option String × Json)) : List Json :=
  (fields.filter (·.1 == some name)).map (·.2)

/-- The value of a name, `none` inside if it is absent. A name must not be given twice. -/
def slot? (fields : List (Option String × Json)) (name : String) : Option (Option Json) :=
  match valuesOf name fields with
  | [] => some none
  | [v] => some (some v)
  | _ => none

/-- The values of a record's fields. Names that are not the record's are ignored, but every name
is a text; a list gives the first fields and no others. -/
def record? (names : List String) : Decoder (List (Option Json))
  | .object fields =>
    if fields.all (·.1.isSome) then names.mapM (slot? fields) else none
  | .array items =>
    if items.length ≤ names.length then
      some (items.map some ++ List.replicate (names.length - items.length) none)
    else none
  | _ => none

def required {α : Type} (decode : Decoder α) : Option Json → Option α
  | none => none
  | some v => decode v

def defaulted {α : Type} (fallback : α) (decode : Decoder α) : Option Json → Option α
  | none => some fallback
  | some v => decode v

/-- A field that may be absent or null. -/
def optional {α : Type} (decode : Decoder α) : Option Json → Option (Option α)
  | none => some none
  | some .null => some none
  | some v => (decode v).map some

end TrapFacts.Json
