/-!
Decimals and the range of doubles.
-/

namespace TrapFacts.Decimal

/-- Half a step above the largest finite double: what is at least as large rounds to infinity. -/
def doubleLimit : Nat :=
  Nat.pow 2 1024 - Nat.pow 2 970

/-- Whether `mantissa * 10 ^ scale` rounds to a finite double. Only near the limit is the
product itself computed. -/
def fitsDouble (mantissa : Nat) (scale : Int) : Bool :=
  let width : Int := (Nat.toDigits 10 mantissa).length + scale
  if mantissa = 0 || width ≤ 308 then true
  else if 310 < width then false
  else mantissa * Nat.pow 10 scale.toNat < doubleLimit * Nat.pow 10 (-scale).toNat

/-- The nearest number of 53 binary digits and zeros behind them. Of two as near, the even one. -/
def nearestDouble (n : Nat) : Nat :=
  let unit := Nat.pow 2 (n.log2 - 52)
  let quotient := n / unit
  let excess := 2 * (n % unit)
  if unit < excess || (unit = excess && quotient % 2 = 1) then (quotient + 1) * unit
  else quotient * unit

/-- A decimal without those of its last digits that do not fit into 64 bits. -/
def leading (mantissa : Nat) (scale : Int) : Nat × Int :=
  if mantissa < 0x10000000000000000 then (mantissa, scale) else leading (mantissa / 10) (scale + 1)

/-- The greatest power of ten that is a finite double. -/
def greatestPower : Nat :=
  308

/-- Whether a decimal is finite as the product of two doubles, its leading digits and the power of
ten that is left. Close to the limit this product may be too large where the decimal is not. -/
def fitsProduct (mantissa : Nat) (scale : Int) : Bool :=
  let (digits, power) := leading mantissa scale
  if digits = 0 || power < 0 then true
  else if greatestPower < power then false
  else nearestDouble digits * nearestDouble (Nat.pow 10 power.toNat) < doubleLimit

end TrapFacts.Decimal
