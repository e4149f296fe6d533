import TinyPascal.Number.Binary64

/-!
# Numerals

```text
numeral  = [ "+" | "-" ] ( word | mantissa [ ( "e" | "E" ) [ "+" | "-" ] digits ] )
word     = "inf" | "infinity" | "nan"           (in any letter case)
mantissa = digits [ "." [ digits ] ] | "." digits
```

A numeral stands for the binary number nearest to it.
-/

namespace TinyPascal

set_option autoImplicit false

/-- The number `digits * 10 ^ exponent`. -/
structure Decimal where
  digits : Nat
  exponent : Int
deriving DecidableEq, Repr, Inhabited

namespace Decimal

/-- The magnitude nearest to a decimal. Decimals beyond the reach of every
exponent are settled by their length alone: from `10 ^ 309` on everything is
infinite, and below `10 ^ (-324)` everything is nearest to zero. -/
def magnitude (decimal : Decimal) : Nat :=
  let length : Int := (Nat.toDigits 10 decimal.digits).length
  if decimal.digits = 0 then 0
  else if 309 < length + decimal.exponent then Binary64.infinite
  else if length + decimal.exponent < -323 then 0
  else
    match decimal.exponent with
    | .ofNat power => Binary64.nearest (decimal.digits * Nat.pow 10 power) 1
    | .negSucc power => Binary64.nearest decimal.digits (Nat.pow 10 (power + 1))

end Decimal

namespace Numeral

def ofDigits (digits : List Char) : Nat :=
  digits.foldl (fun value digit => 10 * value + (digit.toNat - '0'.toNat)) 0

def sign : List Char → Bool × List Char
  | '+' :: rest => (false, rest)
  | '-' :: rest => (true, rest)
  | text => (false, text)

/-- The exponent behind a mantissa; nothing else may follow. -/
def exponent? : List Char → Option Int
  | [] => some 0
  | mark :: rest =>
      let (negative, digits) := sign rest
      if (mark = 'e' || mark = 'E') && !digits.isEmpty && digits.all Char.isDigit then
        some (if negative then -(ofDigits digits : Int) else ofDigits digits)
      else none

/-- An unsigned numeral that is not a word. -/
def decimal? (text : List Char) : Option Decimal :=
  let whole := text.takeWhile Char.isDigit
  let (fraction, rest) := match text.dropWhile Char.isDigit with
    | '.' :: rest => (rest.takeWhile Char.isDigit, rest.dropWhile Char.isDigit)
    | rest => ([], rest)
  if whole.isEmpty && fraction.isEmpty then none
  else
    (exponent? rest).map fun exponent =>
      ⟨ofDigits (whole ++ fraction), exponent - fraction.length⟩

def magnitude? (text : List Char) : Option Nat :=
  match String.ofList (text.map Char.toLower) with
  | "inf" | "infinity" => some Binary64.infinite
  | "nan" => some Binary64.undefined
  | _ => (decimal? text).map Decimal.magnitude

def value? (text : String) : Option Binary64 :=
  let (negative, unsigned) := sign text.toList
  (magnitude? unsigned).map fun magnitude => ⟨negative, magnitude⟩

end Numeral

end TinyPascal
