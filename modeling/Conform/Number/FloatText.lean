/-
  Conform.Number.FloatText

  How a double is written: the shortest digits that read back, laid out
  positionally for moderate exponents and with an exponent mark otherwise. The
  layout is one record, `FloatFormat.host`.

  A double stands for the interval of reals that round to it. For one digit, two
  digits and so on, the two neighbours of the exact value on that decimal grid
  are tested against the interval; the first grid with a hit wins, and of two
  hits the nearer one.
-/

import Conform.Number.Nearest

namespace Conform

/-! ## The shortest digits -/

/-- The reals that round to one double, as numerators over one denominator:
    `low ≤ value ≤ high`, the ends being part of it when `closed`. -/
structure RoundingInterval where
  low : Nat
  value : Nat
  high : Nat
  den : Nat
  closed : Bool

namespace RoundingInterval

/-- The interval of a finite double. Below a power of two the doubles stand
    twice as dense, so the lower half gap is half as wide there. -/
def ofDyadic (d : Dyadic) : RoundingInterval :=
  let atPower := d.mantissa == Dyadic.fractionSpan && d.exponent > Dyadic.leastExponent
  let shift := d.exponent - 2
  let up : Nat := if shift ≥ 0 then Nat.pow 2 shift.toNat else 1
  let down : Nat := if shift ≥ 0 then 1 else Nat.pow 2 (-shift).toNat
  { low := (4 * d.mantissa - (if atPower then 1 else 2)) * up
    value := 4 * d.mantissa * up
    high := (4 * d.mantissa + 2) * up
    den := down
    closed := d.mantissa % 2 == 0 }

/-- Whether `num / den` lies in the interval, `den` being its denominator
    multiplied by `scale`. -/
def holds (i : RoundingInterval) (scale num : Nat) : Bool :=
  if i.closed then i.low * scale ≤ num && num ≤ i.high * scale
  else i.low * scale < num && num < i.high * scale

/-- The power of ten of the leading digit. Doubles are above `10 ^ -400`, so
    the value times `10 ^ 400` has a leading digit before the point. -/
def leadingExponent (i : RoundingInterval) : Int :=
  ((Decimal.digitsOf (i.value * Nat.pow 10 400 / i.den)).length : Int) - 401

/-- The neighbour on the grid of multiples of `10 ^ k` that lies in the
    interval, the nearer one when both do and the upper one on a tie. -/
def nearestOnGrid (i : RoundingInterval) (k : Int) : Option Decimal :=
  -- grid points are `d * unit`, the value is `i.value * scale`, both over one denominator
  let scale : Nat := if k ≥ 0 then 1 else Nat.pow 10 (-k).toNat
  let unit : Nat := if k ≥ 0 then i.den * Nat.pow 10 k.toNat else i.den
  let below := i.value * scale / unit
  let gapBelow := i.value * scale - below * unit
  let gapAbove := (below + 1) * unit - i.value * scale
  let fits (d : Nat) : Bool := d ≠ 0 && i.holds scale (d * unit)
  if fits below && (!fits (below + 1) || gapBelow < gapAbove) then some ⟨below, k⟩
  else if fits (below + 1) then some ⟨below + 1, k⟩
  else none

/-- The first hit among the grids with `width`, `width + 1`, ... digits. -/
def shortestFrom (i : RoundingInterval) (lead : Int) : Nat → Nat → Decimal
  | 0, _ => ⟨0, 0⟩
  | fuel + 1, width =>
      match i.nearestOnGrid (lead + 1 - width) with
      | some d => d
      | none => shortestFrom i lead fuel (width + 1)

end RoundingInterval

namespace Dyadic

/-- The shortest decimal that reads back as the magnitude of `d`. Seventeen
    digits always suffice. -/
def shortest (d : Dyadic) : Decimal :=
  let i := RoundingInterval.ofDyadic d
  if d.mantissa = 0 then ⟨0, 0⟩
  else (i.shortestFrom i.leadingExponent 18 1).trimZeros 400

end Dyadic

/-! ## Layout -/

/-- The decisions that turn decimal digits into text. -/
structure FloatFormat where
  /-- Smallest exponent of the leading digit that is written positionally. -/
  leastPositional : Int
  /-- First exponent of the leading digit that is written with a mark again. -/
  endPositional : Int
  /-- Least number of exponent digits. -/
  exponentWidth : Nat
  nan : String
  infinity : String

namespace FloatFormat

/-- Numbers from `10 ^ -4` up to below `10 ^ 16` are positional, whole ones
    keep `.0`, and an exponent has a sign and at least two digits. -/
def host : FloatFormat where
  leastPositional := -4
  endPositional := 16
  exponentWidth := 2
  nan := "nan"
  infinity := "inf"

/-- Zeros in front of `ds` up to the given width. -/
def padded (width : Nat) (ds : List Char) : List Char :=
  List.replicate (width - ds.length) '0' ++ ds

/-- Digits with the point after position `point`, counted from the front. -/
def positional (ds : List Char) (point : Int) : List Char :=
  if point ≤ 0 then
    '0' :: '.' :: (List.replicate (-point).toNat '0' ++ ds)
  else if point ≥ ds.length then
    ds ++ List.replicate (point.toNat - ds.length) '0' ++ ['.', '0']
  else ds.take point.toNat ++ '.' :: ds.drop point.toNat

/-- Digits with the point after the first one, and the exponent. -/
def scientific (f : FloatFormat) (ds : List Char) (exponent : Int) : List Char :=
  let fraction := match ds.drop 1 with
    | [] => []
    | rest => '.' :: rest
  let sign := if exponent < 0 then '-' else '+'
  ds.take 1 ++ fraction ++ 'e' :: sign ::
    padded f.exponentWidth (Decimal.digitsOf exponent.natAbs)

/-- The text of a nonzero decimal. -/
def decimal (f : FloatFormat) (d : Decimal) : List Char :=
  let ds := Decimal.digitsOf d.digits
  let point : Int := ds.length + d.exponent
  if point - 1 < f.leastPositional ∨ f.endPositional ≤ point - 1 then
    f.scientific ds (point - 1)
  else positional ds point

/-- The text of a double. -/
def chars (f : FloatFormat) (x : Float) : List Char :=
  match Dyadic.ofFloat? x with
  | none =>
      if x.isNaN then f.nan.toList
      else if x < 0 then '-' :: f.infinity.toList
      else f.infinity.toList
  | some d =>
      let sign := if d.negative then ['-'] else []
      let body := if d.mantissa = 0 then ['0', '.', '0'] else f.decimal d.shortest
      sign ++ body

end FloatFormat

end Conform
