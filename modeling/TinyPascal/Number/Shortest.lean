import TinyPascal.Number.Decimal

/-!
# The shortest decimal of a binary number

Among the decimals that round to a given binary number, the shortest is written;
of two equally short ones the closer, and of two equally close ones the larger.
Everything is counted in a unit so fine that each number met on the way is a
whole number of units.
-/

namespace TinyPascal.Shortest

set_option autoImplicit false

/-- Decimal places below the point that every binary number can be told from
zero by, with room for seventeen digits more. -/
def places : Nat := 400

/-- How many units make one `places`-th decimal place. -/
def place : Nat := Nat.pow 2 1076

/-- A positive number, and the ends of the interval of numbers that round to it,
all in units. The ends themselves belong to the interval if `closed`. -/
structure Interval where
  low : Nat
  value : Nat
  high : Nat
  closed : Bool

namespace Interval

/-- The interval of a finite positive magnitude. Its ends lie half-way to the
neighbours; below a power of two the neighbours stand twice as close. -/
def ofMagnitude (magnitude : Nat) : Interval :=
  let significand := Binary64.significand magnitude
  let quarter := Nat.pow 2 (Binary64.scale magnitude) * Nat.pow 10 places
  let below := if magnitude % Binary64.hidden = 0 && Binary64.hidden < magnitude then 1 else 2
  ⟨(4 * significand - below) * quarter, 4 * significand * quarter, (4 * significand + 2) * quarter,
    significand % 2 = 0⟩

def contains (interval : Interval) (number : Nat) : Bool :=
  if interval.closed then interval.low ≤ number && number ≤ interval.high
  else interval.low < number && number < interval.high

/-- Of the two neighbours of the value that are multiples of `step`, the closer
one in the interval, as a count of steps. -/
def onGrid (interval : Interval) (step : Nat) : Option Nat :=
  let below := interval.value / step
  let above := below + 1
  let hasBelow := interval.contains (below * step)
  let hasAbove := interval.contains (above * step)
  if hasBelow && (!hasAbove || 2 * interval.value < (below + above) * step) then some below
  else if hasAbove then some above
  else none

end Interval

/-- The shortest decimal of a finite positive magnitude: the first grid with a
multiple in the interval, tried from one significant digit on. Seventeen digits
always suffice. -/
def decimal (magnitude : Nat) : Decimal :=
  let interval := Interval.ofMagnitude magnitude
  let length := (Nat.toDigits 10 (interval.value / place)).length
  let found := (List.range 17).findSome? fun digits =>
    let exponent := length - (digits + 1)
    (interval.onGrid (place * Nat.pow 10 exponent)).map fun count =>
      Decimal.mk count (exponent - (places : Int))
  found.getD ⟨0, 0⟩

end TinyPascal.Shortest
