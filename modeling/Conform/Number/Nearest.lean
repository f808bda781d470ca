/-
  Conform.Number.Nearest

  Decimals, the exact value of a finite double, and the double nearest to a
  fraction. The exact value is a sign, a natural mantissa and a power of two, so
  whether a number is whole, or which integer it is, does not depend on
  rounding. For the nearest double the quotient is rounded once, in integer
  arithmetic, with ties to the even neighbour, so decimals of any length and
  subnormal results come out exact to the last place.
-/

namespace Conform

/-! ## Decimals -/

/-- A decimal `digits * 10 ^ exponent`. -/
structure Decimal where
  digits : Nat
  exponent : Int
deriving Repr, DecidableEq

namespace Decimal

/-- Divides out up to `fuel` factors of ten. -/
def trimZeros : Nat → Decimal → Decimal
  | 0, d => d
  | fuel + 1, d =>
      if d.digits ≠ 0 ∧ d.digits % 10 = 0 then
        trimZeros fuel ⟨d.digits / 10, d.exponent + 1⟩
      else d

/-- The digits of a natural number, most significant first. -/
def digitsOf (n : Nat) : List Char := Nat.toDigits 10 n

end Decimal

/-! ## Exact values -/

/-- A number `± mantissa * 2 ^ exponent`. -/
structure Dyadic where
  negative : Bool
  mantissa : Nat
  exponent : Int
deriving Repr, DecidableEq

namespace Dyadic

/-- The number of stored fractions of a double: two to the power 52. -/
def fractionSpan : Nat := 0x10000000000000

/-- The exponent of the last place of a subnormal double. -/
def leastExponent : Int := -1074

/-- The exact value of a double, read off its bit pattern; `none` for the
    infinities and for a NaN. -/
def ofFloat? (x : Float) : Option Dyadic :=
  let bits := x.toBits.toNat
  let fraction := bits % fractionSpan
  let biased := bits / fractionSpan % 2048
  let negative := bits / 0x8000000000000000 == 1
  if biased == 2047 then none
  else if biased == 0 then some ⟨negative, fraction, leastExponent⟩
  else some ⟨negative, fraction + fractionSpan, (biased : Int) - 1075⟩

/-- The magnitude as a fraction: numerator and denominator. -/
def magnitude (d : Dyadic) : Nat × Nat :=
  if d.exponent ≥ 0 then (d.mantissa * Nat.pow 2 d.exponent.toNat, 1)
  else (d.mantissa, Nat.pow 2 (-d.exponent).toNat)

/-- The integer that `d` is, or `none` when it has a fractional part. -/
def toInt? (d : Dyadic) : Option Int :=
  let (num, den) := d.magnitude
  if num % den == 0 then
    let whole : Int := ((num / den : Nat) : Int)
    some (if d.negative then -whole else whole)
  else none

end Dyadic

/-! ## The nearest double -/

namespace Nearest

/-- The quotient rounded to the nearest natural number, a half to the even
    neighbour. -/
def roundDiv (num den : Nat) : Nat :=
  let q := num / den
  let r := num % den
  if 2 * r < den then q
  else if den < 2 * r then q + 1
  else q + q % 2

/-- Whether `2 ^ k ≤ num / den`. -/
def reaches (num den : Nat) (k : Int) : Bool :=
  if k ≥ 0 then den * Nat.pow 2 k.toNat ≤ num else den ≤ num * Nat.pow 2 (-k).toNat

/-- The largest `k` with `2 ^ k ≤ num / den`, for a positive fraction. -/
def magnitudeExponent (num den : Nat) : Int :=
  let k : Int := (num.log2 : Int) - den.log2
  if reaches num den k then k else k - 1

/-- The exponent of the last place of the double nearest to a positive
    fraction: 53 binary digits, but no place below the least one. -/
def lastPlace (num den : Nat) : Int :=
  max Dyadic.leastExponent (magnitudeExponent num den - 52)

/-- The bits of infinity. -/
def infinityBits : Nat := 0x7ff0000000000000

/-- The bits of the double nearest to a fraction. A mantissa that is rounded up
    to the next power of two carries into the exponent field, and a value
    beyond the largest double becomes infinity. -/
def bits (num den : Nat) : Nat :=
  if num == 0 then 0
  else
    let e := lastPlace num den
    let mantissa :=
      if e ≥ 0 then roundDiv num (den * Nat.pow 2 e.toNat)
      else roundDiv (num * Nat.pow 2 (-e).toNat) den
    min infinityBits ((e - Dyadic.leastExponent).toNat * Dyadic.fractionSpan + mantissa)

/-- The double nearest to `num / den`. -/
def ofFraction (num den : Nat) : Float := Float.ofBits (bits num den).toUInt64

end Nearest

/-- The double nearest to a decimal. -/
def Decimal.toFloat (d : Decimal) : Float :=
  if d.exponent ≥ 0 then Nearest.ofFraction (d.digits * Nat.pow 10 d.exponent.toNat) 1
  else Nearest.ofFraction d.digits (Nat.pow 10 (-d.exponent).toNat)

end Conform
