/-
  TexMark/Message/Value.lean
  ==========================
  **Values in messages.** The letter of a directive says how a value is written: as a text, as
  a whole number in some base, with a fraction or an exponent, or as one character. What is
  written is filled up to the width of the directive.
-/
import TexMark.Json.Value
import TexMark.Message.Directive
import TexMark.Message.Error
import TexMark.Number.Rounded
import TexMark.Text.Letter

namespace TexMark.Message

/-- How a directive lays its value out, its counts known. -/
structure Style extends Flags where
  width : Nat
  precision? : Option Nat

def kindName : Json → Text
  | .null => "NoneType"
  | .bool _ => "bool"
  | .int _ => "int"
  | .float _ => "float"
  | .str _ => "str"
  | .arr _ => "list"
  | .obj _ => "dict"

/-- The most characters that a directive fills up. -/
def maxFilled : Nat := 16777216

/-- The most digits that an integer is written with on demand. -/
def maxPrecision : Nat := 2147483644

/-! ### Layouts -/

def Style.padded (s : Style) (t : Text) : Except FormatError Text :=
  let blanks := s.width - t.length
  if maxFilled < blanks then .error .tooLong
  else .ok (if s.leftAligned then t ++ List.replicate blanks ' '
    else List.replicate blanks ' ' ++ t)

def Style.writeText (s : Style) (t : Text) : Except FormatError Text :=
  s.padded (match s.precision? with
    | some p => t.take p
    | none => t)

/-- A number: its sign, the mark of its base, and its digits, of which the precision asks for
    a least count. -/
def Style.writeDigits (s : Style) (negative : Bool) (base digits : Text) :
    Except FormatError Text :=
  let front := (if negative then ['-'] else s.plus) ++ base
  let room := if s.zeroFilled && !s.leftAligned then s.width - front.length else 0
  let zeros := max (s.precision?.getD 0) room - digits.length
  if maxPrecision < s.precision?.getD 0 then .error .tooPrecise
  else if maxFilled < zeros then .error .tooLong
  else s.padded (front ++ List.replicate zeros '0' ++ digits)

/-! ### Whole numbers -/

def integer? : Json → Option Int
  | .int n => some n
  | .bool b => some (if b then 1 else 0)
  | _ => none

/-- An integer for a letter that takes nothing else. -/
def integer (letter : Char) (v : Json) : Except FormatError Int :=
  match integer? v with
  | some n => .ok n
  | none => .error (.notInteger letter (kindName v))

def whole (letter : Char) : Json → Except FormatError Int
  | .float .nan => .error .nanToInteger
  | .float (.infinite _) => .error .infinityToInteger
  | .float (.finite negative m e) =>
    let q := Binary64.Fraction.scale ⟨m, 1⟩ 2 e
    let n : Int := (q.num / q.den : Nat)
    .ok (if negative then -n else n)
  | v => match integer? v with
    | some n => .ok n
    | none => .error (.notNumber letter (kindName v))

def Style.writeWhole (s : Style) (n : Int) : Except FormatError Text :=
  s.writeDigits (decide (n < 0)) [] (Text.ofNat n.natAbs)

def Style.writeBase (s : Style) (base : Nat) (mark : Text) (n : Int) : Except FormatError Text :=
  s.writeDigits (decide (n < 0)) (if s.full then mark else []) (Nat.toDigits base n.natAbs)

/-! ### Numbers with a fraction -/

def real? : Json → Option Binary64
  | .float x => some x
  | v => (integer? v).map fun n =>
    if n = 0 then .finite false 0 Binary64.minExponent
    else Binary64.ofFraction (decide (n < 0)) ⟨n.natAbs, 1⟩

/-- A number with a fraction, whose digits `digits` writes. -/
def Style.writeReal (s : Style) (letter : Char) (count : Nat)
    (digits : Nat → Binary64.Fraction → Text) (v : Json) : Except FormatError Text :=
  let written (negative : Bool) (t : Text) : Except FormatError Text :=
    { s with precision? := none }.writeDigits negative []
      (if Text.isAsciiUpper letter then t.map Char.toUpper else t)
  match real? v with
  | none => .error (.notReal (kindName v))
  | some .nan => written false "nan"
  | some (.infinite negative) =>
    if (integer? v).isSome then .error .tooLarge else written negative "inf"
  | some (.finite negative m e) =>
    if maxFilled < count then .error .tooLong
    else written negative (digits count (Binary64.Fraction.scale ⟨m, 1⟩ 2 e))

/-- How many digits a number with a fraction gets if no precision is asked for. -/
def usualPrecision : Nat := 6

def Style.writeFixed (s : Style) (letter : Char) (v : Json) : Except FormatError Text :=
  s.writeReal letter (s.precision?.getD usualPrecision) (Binary64.fixedText · s.full) v

/-- A number with an exponent. A precision to which the digit before the point cannot be added
    counts as none. -/
def Style.writeExponent (s : Style) (letter : Char) (v : Json) : Except FormatError Text :=
  let places := s.precision?.getD usualPrecision
  s.writeReal letter (if Integer.fits Measure.precision.bits (places + 1 : Nat) then places else 0)
    (Binary64.exponentText · s.full) v

def Style.writeGeneral (s : Style) (letter : Char) (v : Json) : Except FormatError Text :=
  let count := max (s.precision?.getD usualPrecision) 1
  s.writeReal letter (if s.full then count else min count Binary64.maxDigits)
    (Binary64.generalText · s.full) v

/-! ### Characters -/

/-- A character by its number, or a text of one character. -/
def character : Json → Except FormatError Text
  | .str [c] => .ok [c]
  | v => match integer? v with
    | none => .error .notCharacter
    | some n =>
      if 0 ≤ n ∧ n < 0x110000 then .ok [Char.ofNat n.toNat] else .error .noSuchCharacter

/-- A text in which every character outside ASCII is spelled out. -/
def plainly (t : Text) : Text := t.flatMap fun c => if c.toNat < 128 then [c] else Text.spelledOut c

/-! ### Letters -/

/-- A value in the way of a letter, which stands at `place`. -/
def Style.write (s : Style) (letter : Char) (place : Nat) (v : Json) : Except FormatError Text :=
  if letter == 's' then s.writeText v.asText
  else if letter == 'r' then s.writeText v.shown
  else if letter == 'a' then s.writeText (plainly v.shown)
  else if letter == 'd' || letter == 'i' || letter == 'u' then do
    s.writeWhole (← whole letter v)
  else if letter == 'x' then do s.writeBase 16 "0x" (← integer letter v)
  else if letter == 'X' then do
    return (← s.writeBase 16 "0X" (← integer letter v)).map Char.toUpper
  else if letter == 'o' then do s.writeBase 8 "0o" (← integer letter v)
  else if letter == 'f' || letter == 'F' then s.writeFixed letter v
  else if letter == 'e' || letter == 'E' then s.writeExponent letter v
  else if letter == 'g' || letter == 'G' then s.writeGeneral letter v
  else if letter == 'c' then do s.padded (← character v)
  else .error (.unknownLetter letter place)

end TexMark.Message
