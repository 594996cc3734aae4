/-
  TexMark/Number/Rounded.lean
  ===========================
  **Numbers with a given number of digits.** A fraction is rounded to the nearest decimal with
  so many digits, ties to the even one, and written with its point in place, with an exponent,
  or in the shorter of the two ways.
-/
import TexMark.Number.Binary64

namespace TexMark.Binary64

/-- No number of the format has more digits than this, neither behind its point nor from its
    first digit on. -/
def maxDigits : Nat := 1100

/-- The digits of a fraction times a power of ten, rounded, and `more` digits behind them. -/
def digitsAt (power : Int) (more : Nat) (q : Fraction) : Text :=
  Text.ofNat (q.scale 10 power).round ++ zeros more

/-- A number with a fixed count of digits behind the point. A point without digits behind it
    is written on request. -/
def fixedText (places : Nat) (barePoint : Bool) (q : Fraction) : Text :=
  let digits := digitsAt (min places maxDigits : Nat) (places - maxDigits) q
  let filled := zeros (places + 1 - digits.length) ++ digits
  let split := filled.length - places
  filled.take split ++
    if places = 0 then (if barePoint then ['.'] else []) else '.' :: filled.drop split

/-- The first `count` digits of a number, and the power of ten of the first of them. -/
def leading (count : Nat) (q : Fraction) : Text × Int :=
  if q.num = 0 then (zeros count, 0)
  else
    let point := decimalPoint q
    let digits := digitsAt ((min count maxDigits : Nat) - point) (count - maxDigits) q
    if count < digits.length then (digits.take count, point) else (digits, point - 1)

/-- The first digit of a number, with the exponent of ten, and the digits behind a point. -/
def withExponent (digits : Text) (exponent : Int) (barePoint : Bool) : Text :=
  if digits.length = 1 ∧ barePoint then
    digits ++ '.' :: (scientific digits exponent).drop 1
  else scientific digits exponent

/-- A number with an exponent, and a fixed count of digits behind the point. -/
def exponentText (places : Nat) (barePoint : Bool) (q : Fraction) : Text :=
  let (digits, exponent) := leading (places + 1) q
  withExponent digits exponent barePoint

/-- Takes the zeros at the end of a decimal away, and the point if nothing follows it. -/
def dropZeros (t : Text) : Text :=
  if t.contains '.' then Text.trimEnd (· == '.') (Text.trimEnd (· == '0') t) else t

/-- A number of `count` digits, with an exponent if it is small or has more digits before the
    point. -/
def generalText (count : Nat) (keepZeros : Bool) (q : Fraction) : Text :=
  let (digits, exponent) := leading count q
  if -4 ≤ exponent ∧ exponent < count then
    let t := fixedText (count - 1 - exponent).toNat keepZeros q
    if keepZeros then t else dropZeros t
  else if keepZeros then withExponent digits exponent true
  else
    let kept := Text.trimEnd (· == '0') digits
    withExponent kept exponent false

end TexMark.Binary64
