/-!
# Binary numbers of 64 bits

A number is a sign and a magnitude of 63 bits. Magnitudes are ordered as the
numbers they stand for: eleven bits of exponent, then fifty-two of the
significand, whose leading bit is implied unless the exponent is zero.
-/

namespace TinyPascal

set_option autoImplicit false

structure Binary64 where
  negative : Bool
  magnitude : Nat
deriving DecidableEq, Repr, Inhabited

namespace Binary64

/-- How many magnitudes share an exponent. -/
def hidden : Nat := Nat.pow 2 52

/-- The magnitude of the infinities. Those above it stand for no number. -/
def infinite : Nat := 2047 * hidden

/-- The magnitude of the representative that stands for no number. -/
def undefined : Nat := infinite + hidden / 2

def zero : Binary64 := ⟨false, 0⟩

def one : Binary64 := ⟨false, 1023 * hidden⟩

def isNaN (x : Binary64) : Bool := infinite < x.magnitude

/-- The bit pattern, sign first. -/
def bits (x : Binary64) : Nat := (if x.negative then Nat.pow 2 63 else 0) + x.magnitude

/-- The significand of a finite magnitude, with its leading bit. -/
def significand (magnitude : Nat) : Nat :=
  if magnitude < hidden then magnitude else hidden + magnitude % hidden

/-- How often a finite magnitude doubles the least one. -/
def scale (magnitude : Nat) : Nat := magnitude / hidden - 1

/-- The quotient rounded to the nearest whole number, a half to the even
neighbour. -/
def roundDiv (num den : Nat) : Nat :=
  let quotient := num / den
  let twice := 2 * (num % den)
  if twice < den then quotient
  else if den < twice then quotient + 1
  else quotient + quotient % 2

/-- The magnitude nearest to `num / den`, both positive. The quotient is counted
in units of the least magnitude, `2 ^ (-1074)`; of those units only the leading
fifty-three bits are kept. Rounding up to the next power of two carries into the
exponent by itself, and past the last exponent there is only infinity. -/
def nearest (num den : Nat) : Nat :=
  let scale := (num * Nat.pow 2 1074 / den).log2 - 52
  min infinite (scale * hidden + roundDiv (num * Nat.pow 2 1074) (den * Nat.pow 2 scale))

end Binary64

end TinyPascal
