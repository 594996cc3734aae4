/-
  TexMark/Number/Binary64.lean
  ============================
  **Floating-point numbers.** A number of the binary64 format, computed with exactly: a
  decimal numeral is rounded to the nearest number of the format, ties to the even one, and
  a number is written with the fewest digits that read back as it.
-/
import TexMark.Text.Basic

namespace TexMark

/-- A binary64 number. A finite one is `significand * 2 ^ exponent`, where the significand
    has 53 bits, or fewer and the exponent is the smallest. -/
inductive Binary64 where
  | nan
  | infinite (negative : Bool)
  | finite (negative : Bool) (significand : Nat) (exponent : Int)
deriving DecidableEq, Repr

namespace Binary64

def minExponent : Int := -1074

def maxExponent : Int := 971

/-- The first number with more bits than a significand has. -/
def significandBound : Nat := Nat.pow 2 53

/-- A fraction of natural numbers. -/
structure Fraction where
  num : Nat
  den : Nat

def Fraction.scale (q : Fraction) (base : Nat) (power : Int) : Fraction :=
  if 0 ≤ power then { q with num := q.num * Nat.pow base power.toNat }
  else { q with den := q.den * Nat.pow base (-power).toNat }

/-- The nearest natural number; a tie goes to the even one. -/
def Fraction.round (q : Fraction) : Nat :=
  let low := q.num / q.den
  let twice := 2 * (q.num % q.den)
  if twice < q.den then low
  else if q.den < twice then low + 1
  else if low % 2 = 0 then low else low + 1

/-- The exponent with which a fraction has a significand of 53 bits, or the smallest. -/
def exponentFor (q : Fraction) : Int :=
  let guess : Int := (q.num.log2 : Int) - (q.den.log2 : Int) - 52
  let scaled := q.scale 2 (-guess)
  let fitted := if 2 * scaled.num < significandBound * scaled.den then guess - 1 else guess
  max fitted minExponent

def ofFraction (negative : Bool) (q : Fraction) : Binary64 :=
  let e := exponentFor q
  let m := (q.scale 2 (-e)).round
  let (m, e) := if m = significandBound then (m / 2, e + 1) else (m, e)
  if maxExponent < e then .infinite negative else .finite negative m e

def digitCount (n : Nat) : Nat := (Nat.toDigits 10 n).length

def ofDecimal (negative : Bool) (digits : Nat) (power : Int) : Binary64 :=
  let magnitude : Int := digitCount digits + power
  if digits = 0 ∨ magnitude < -400 then .finite negative 0 minExponent
  else if 400 < magnitude then .infinite negative
  else ofFraction negative (Fraction.scale ⟨digits, 1⟩ 10 power)

/-! ### Shortest digits -/

/-- The power of ten that lies just above a positive fraction: the fraction is below
    `10 ^ p` and not below `10 ^ (p - 1)`. -/
def decimalPoint (q : Fraction) : Int :=
  if q.den ≤ q.num then digitCount (q.num / q.den)
  else
    let up := (q.den + q.num - 1) / q.num
    1 - (digitCount (up - 1) : Int)

/-- The decimal with `count` digits that reads back as `x`, the nearer one if there are
    two. -/
def withDigits? (x : Binary64) (negative : Bool) (q : Fraction) (point : Int) (count : Nat) :
    Option (Nat × Int) :=
  let power := point - count
  let scaled := q.scale 10 (-power)
  let low := scaled.num / scaled.den
  let near := scaled.round
  let far := if near = low then low + 1 else low
  if ofDecimal negative near power = x then some (near, power)
  else if ofDecimal negative far power = x then some (far, power)
  else none

/-- The fewest digits that read back as `x`, and the power of ten of the last of them. -/
def shortest (x : Binary64) (negative : Bool) (q : Fraction) : Nat × Int :=
  let point := decimalPoint q
  ((List.range' 1 17).findSome? (withDigits? x negative q point)).getD
    (q.num / q.den, 0)

def zeros (n : Nat) : Text := List.replicate n '0'

/-- Digits with a point in or beside them. `point` digits stand before it. -/
def positional (digits : Text) (point : Int) : Text :=
  if point ≤ 0 then '0' :: '.' :: zeros (-point).toNat ++ digits
  else
    let n := point.toNat
    if digits.length ≤ n then digits ++ zeros (n - digits.length) ++ ['.', '0']
    else digits.take n ++ '.' :: digits.drop n

/-- Digits with a point behind the first and the exponent of ten, of two digits at least. -/
def scientific (digits : Text) (exponent : Int) : Text :=
  let fraction := if digits.length ≤ 1 then [] else '.' :: digits.drop 1
  let sign := if exponent < 0 then '-' else '+'
  let e := Text.ofNat exponent.natAbs
  digits.take 1 ++ fraction ++ 'e' :: sign :: zeros (2 - e.length) ++ e

/-- The written form: the fewest digits that read back, positional from a ten-thousandth up
    to sixteen digits before the point, and always with a point or an exponent. -/
def text : Binary64 → Text
  | .nan => "nan"
  | .infinite negative => if negative then "-inf" else "inf"
  | .finite negative significand exponent =>
    let sign : Text := if negative then ['-'] else []
    if significand = 0 then sign ++ "0.0"
    else
      let x := Binary64.finite negative significand exponent
      let (n, power) := shortest x negative (Fraction.scale ⟨significand, 1⟩ 2 exponent)
      let digits := ((Text.ofNat n).reverse.dropWhile (· == '0')).reverse
      let point : Int := (Text.ofNat n).length + power
      sign ++ (if -4 < point ∧ point ≤ 16 then positional digits point
        else scientific digits (point - 1))

end Binary64

end TexMark
