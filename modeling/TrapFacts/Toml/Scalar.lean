import TrapFacts.Text.Decimal
import TrapFacts.Text.Digits
import TrapFacts.Toml.Basic

/-!
Scalars of TOML that are written without quotes: truth values, numbers, dates and times.
-/

namespace TrapFacts.Toml

open Digits (isDigit digitValue valueIn? natOfDigits splitSign withSign)

/-- The characters that such a scalar can consist of. What may follow it is none of them. -/
def isScalarChar (c : Char) : Bool :=
  c.isAlphanum || c = '+' || c = '-' || c = '.' || c = ':' || c = '_'

/-- The values of the digits behind the first one. Each underscore has a digit behind it. -/
def moreDigits (base : Nat) : List Char → Option (List Nat)
  | [] => some []
  | '_' :: c :: cs =>
    match valueIn? base c with
    | some d => (moreDigits base cs).map (d :: ·)
    | none => none
  | c :: cs =>
    match valueIn? base c with
    | some d => (moreDigits base cs).map (d :: ·)
    | none => none

/-- A row of digits, grouped by underscores. -/
def groupedDigits : (base : Nat) → List Char → Option (List Nat)
  | _, [] => none
  | base, c :: cs =>
    match valueIn? base c with
    | some d => (moreDigits base cs).map (d :: ·)
    | none => none

/-- A row of decimal digits. A leading zero stands alone. -/
def wholeDigits : List Char → Option (List Nat)
  | '0' :: cs => if cs.isEmpty then some [0] else none
  | cs => groupedDigits 10 cs

/-- An integer. Only decimal ones have a sign. -/
def readInteger (cs : List Char) : Option Int :=
  let inBase (base : Nat) (cs : List Char) : Option Int :=
    (groupedDigits base cs).map fun ds => (natOfDigits base ds : Int)
  match cs with
  | '0' :: 'x' :: cs => inBase 16 cs
  | '0' :: 'o' :: cs => inBase 8 cs
  | '0' :: 'b' :: cs => inBase 2 cs
  | cs =>
    let (negative, cs) := splitSign cs
    (wholeDigits cs).map fun ds => withSign negative (natOfDigits 10 ds)

/-- Whether a word of 64 bits holds an integer. -/
def fitsWord (n : Int) : Bool :=
  -0x8000000000000000 ≤ n && n < 0x8000000000000000

/-- The digits behind a point, if there is one, and what follows. -/
def splitFraction : List Char → Option (Option (List Nat) × List Char)
  | '.' :: cs =>
    let r := cs.span fun c => isDigit c || c = '_'
    (groupedDigits 10 r.1).map fun ds => (some ds, r.2)
  | cs => some (none, cs)

/-- The exponent, if there is one, and nothing else. -/
def readExponent : List Char → Option (Option Int)
  | [] => some none
  | c :: cs =>
    if c = 'e' || c = 'E' then
      let (negative, cs) := splitSign cs
      (groupedDigits 10 cs).map fun ds => some (withSign negative (natOfDigits 10 ds))
    else none

/-- Whether a number with a point or an exponent is well formed. A positive one must be finite. -/
def isDecimal (cs : List Char) : Bool :=
  let (negative, cs) := splitSign cs
  let (whole, cs) := cs.span fun c => isDigit c || c = '_'
  let parts := do
    let whole ← wholeDigits whole
    let (fraction, cs) ← splitFraction cs
    let exponent ← readExponent cs
    some (whole, fraction, exponent)
  match parts with
  | none => false
  | some (_, none, none) => false
  | some (whole, fraction, exponent) =>
    let ds := fraction.getD []
    negative || Decimal.fitsDouble (natOfDigits 10 (whole ++ ds)) (exponent.getD 0 - ds.length)

/-- A number that is written as a word. -/
def isWordNumber (cs : List Char) : Bool :=
  let (_, cs) := splitSign cs
  cs = ['i', 'n', 'f'] || cs = ['n', 'a', 'n']

/-- A row of exactly so many digits, and the rest. -/
def takeDigits : Nat → List Char → Option (List Nat × List Char)
  | 0, cs => some ([], cs)
  | _ + 1, [] => none
  | n + 1, c :: cs =>
    if isDigit c then (takeDigits n cs).map fun r => (digitValue c :: r.1, r.2) else none

/-- A number of exactly so many digits within bounds, and the rest. -/
def takeNumber (width low high : Nat) (cs : List Char) : Option (Nat × List Char) :=
  match takeDigits width cs with
  | none => none
  | some (ds, rest) =>
    let n := natOfDigits 10 ds
    if low ≤ n && n ≤ high then some (n, rest) else none

def takeChar (c : Char) : List Char → Option (List Char)
  | d :: cs => if c = d then some cs else none
  | [] => none

def isLeapYear (year : Nat) : Bool :=
  year % 4 = 0 && (year % 100 ≠ 0 || year % 400 = 0)

def daysIn (year month : Nat) : Nat :=
  if month = 2 then (if isLeapYear year then 29 else 28)
  else if month = 4 || month = 6 || month = 9 || month = 11 then 30
  else 31

/-- What follows a date. -/
def afterDate (cs : List Char) : Option (List Char) := do
  let (year, cs) ← takeNumber 4 0 9999 cs
  let cs ← takeChar '-' cs
  let (month, cs) ← takeNumber 2 1 12 cs
  let cs ← takeChar '-' cs
  let (_, cs) ← takeNumber 2 1 (daysIn year month) cs
  some cs

/-- What follows a fraction of a second, if there is one. -/
def afterFraction : List Char → Option (List Char)
  | '.' :: c :: cs => if isDigit c then some (cs.dropWhile isDigit) else none
  | '.' :: [] => none
  | cs => some cs

/-- What follows a time of day. A minute may have a leap second. -/
def afterTime (cs : List Char) : Option (List Char) := do
  let (_, cs) ← takeNumber 2 0 23 cs
  let cs ← takeChar ':' cs
  let (_, cs) ← takeNumber 2 0 59 cs
  let cs ← takeChar ':' cs
  let (_, cs) ← takeNumber 2 0 60 cs
  afterFraction cs

/-- Whether a text is empty or the offset of a time zone. -/
def isOffset : List Char → Bool
  | [] => true
  | ['Z'] => true
  | ['z'] => true
  | c :: cs =>
    (c = '+' || c = '-') &&
      match takeNumber 2 0 23 cs with
      | none => false
      | some (_, cs) =>
        match takeChar ':' cs with
        | none => false
        | some cs => (takeNumber 2 0 59 cs).any (·.2.isEmpty)

/-- Whether a text is a time of day with or without an offset. -/
def isTimeAndOffset (cs : List Char) : Bool :=
  (afterTime cs).any isOffset

/-- Whether a text is a date, a time of day, or both. -/
def isDateTime (cs : List Char) : Bool :=
  match afterDate cs with
  | some [] => true
  | some (c :: rest) => (c = 'T' || c = 't') && isTimeAndOffset rest
  | none => (afterTime cs).any (·.isEmpty)

/-- A number, or a date or time without blanks. -/
def readNumeric (cs : List Char) : Option Toml :=
  if isDateTime cs then some .dateTime
  else if isDecimal cs || isWordNumber cs then some .float
  else
    match readInteger cs with
    | some n => if fitsWord n then some (.integer n) else none
    | none => none

/-- The scalar in front, and the rest. A date and the time of it may be set apart by a blank. -/
def scanScalar (cs : List Char) : Option (Toml × List Char) :=
  let (word, rest) := cs.span isScalarChar
  if word = ['t', 'r', 'u', 'e'] then some (.boolean true, rest)
  else if word = ['f', 'a', 'l', 's', 'e'] then some (.boolean false, rest)
  else
    match readNumeric word with
    | none => none
    | some v =>
      match rest with
      | ' ' :: more =>
        if afterDate word = some [] then
          let (time, rest) := more.span isScalarChar
          if time.isEmpty then some (v, ' ' :: more)
          else if isTimeAndOffset time then some (.dateTime, rest)
          else none
        else some (v, rest)
      | _ => some (v, rest)

end TrapFacts.Toml
