import TinyPascal.Number.Shortest

/-!
# Numbers as text

Numbers from `10 ^ (-4)` up to, not including, `10 ^ 16` are written
positionally and always with a fraction, all others with an exponent.
-/

namespace TinyPascal

set_option autoImplicit false

/-- The digits of a number `0.d₁d₂… * 10 ^ point`. -/
structure Digits where
  digits : List Char
  point : Int
deriving DecidableEq, Repr

namespace Digits

def ofDecimal (decimal : Decimal) : Digits :=
  let all := Nat.toDigits 10 decimal.digits
  ⟨(all.reverse.dropWhile (· = '0')).reverse, all.length + decimal.exponent⟩

/-- The digits with a point among them. -/
def positional (number : Digits) : List Char :=
  match number.point with
  | .negSucc zeros => '0' :: '.' :: (List.replicate (zeros + 1) '0' ++ number.digits)
  | .ofNat 0 => '0' :: '.' :: number.digits
  | .ofNat whole =>
      if number.digits.length ≤ whole then
        number.digits ++ List.replicate (whole - number.digits.length) '0' ++ ['.', '0']
      else number.digits.take whole ++ '.' :: number.digits.drop whole

/-- One digit before the point, and an exponent. -/
def exponential (number : Digits) : List Char :=
  let mantissa := match number.digits with
    | first :: second :: others => first :: '.' :: second :: others
    | few => few
  mantissa ++ 'e' :: (toString (number.point - 1)).toList

def text (number : Digits) : List Char :=
  if -4 < number.point && number.point ≤ 16 then number.positional else number.exponential

end Digits

namespace Binary64

def text (x : Binary64) : String :=
  let unsigned :=
    if x.isNaN then "NaN"
    else if x.magnitude = infinite then "inf"
    else if x.magnitude = 0 then "0.0"
    else String.ofList (Digits.ofDecimal (Shortest.decimal x.magnitude)).text
  if x.negative && !x.isNaN then "-" ++ unsigned else unsigned

end Binary64

end TinyPascal
