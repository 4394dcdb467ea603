/-!
Digits and the numbers that they write.
-/

namespace TrapFacts.Digits

def isDigit (c : Char) : Bool :=
  '0' ≤ c && c ≤ '9'

def digitValue (c : Char) : Nat :=
  c.toNat - '0'.toNat

/-- The value of a character as a digit of base sixteen. -/
def hexValue? (c : Char) : Option Nat :=
  if isDigit c then some (digitValue c)
  else if 'a' ≤ c && c ≤ 'f' then some (c.toNat - 'a'.toNat + 10)
  else if 'A' ≤ c && c ≤ 'F' then some (c.toNat - 'A'.toNat + 10)
  else none

/-- The value of a character as a digit of a base up to sixteen. -/
def valueIn? (base : Nat) (c : Char) : Option Nat :=
  (hexValue? c).filter (· < base)

/-- The number that a row of digits denotes in the given base. -/
def natOfDigits (base : Nat) (digits : List Nat) : Nat :=
  digits.foldl (fun n d => n * base + d) 0

/-- Whether the sign in front, if there is one, is negative, and what follows it. -/
def splitSign : List Char → Bool × List Char
  | '-' :: cs => (true, cs)
  | '+' :: cs => (false, cs)
  | cs => (false, cs)

def withSign (negative : Bool) (n : Nat) : Int :=
  if negative then -n else n

end TrapFacts.Digits
