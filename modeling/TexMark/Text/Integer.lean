/-
  TexMark/Text/Integer.lean
  =========================
  **Reading integers.** A written integer is a sign, if any, and decimal digits of
  any script, with single underscores between digits where the writer wants them
  and blanks around. `Integer.read` accepts exactly these, up to a length.
-/
import TexMark.Text.Blank
import TexMark.Text.Digit
import TexMark.Text.Quoted

namespace TexMark.Integer

/-- Why a text is no integer. -/
inductive ReadError where
  /-- The text does not have the form of an integer. -/
  | malformed (source : Text)
  /-- The text has too many digits. -/
  | tooLong (digits : Nat)
deriving DecidableEq, Repr

def maxDigits : Nat := 4300

/-- The most of a malformed text, quotes included, that a message shows. -/
def shownChars : Nat := 200

def ReadError.message : ReadError → Text
  | .malformed source =>
    "invalid literal for int() with base 10: " ++ (Text.quoted source).take shownChars
  | .tooLong digits =>
    "Exceeds the limit (" ++ Text.ofNat maxDigits ++
      " digits) for integer string conversion: value has " ++ Text.ofNat digits ++
      " digits; use sys.set_int_max_str_digits() to increase the limit"

/-- The blanks that may stand around a numeral: all but the information separators. -/
def isMargin (c : Char) : Bool := Text.isBlank c && !(28 ≤ c.toNat && c.toNat ≤ 31)

/-- The digits at the head of a text, and what follows them. `afterDigit` says whether an
    underscore may stand here and whether the digits may end here. -/
def digits? (afterDigit : Bool) : Text → Option (List Nat × Text)
  | [] => if afterDigit then some ([], []) else none
  | c :: rest =>
    if c == '_' then if afterDigit then digits? false rest else none
    else match Text.decimalValue? c with
      | some d => (digits? true rest).map fun r => (d :: r.1, r.2)
      | none => if afterDigit then some ([], c :: rest) else none

/-- The value of a list of digits, the most significant first. -/
def ofDigits (ds : List Nat) : Nat := ds.foldl (fun n d => 10 * n + d) 0

def fits (bits : Nat) (n : Int) : Bool :=
  decide (-(Nat.pow 2 (bits - 1) : Int) ≤ n) && decide (n < (Nat.pow 2 (bits - 1) : Int))

def sign : Text → Bool × Text
  | '-' :: rest => (true, rest)
  | '+' :: rest => (false, rest)
  | t => (false, t)

/-- Reads an integer. Too many digits are refused before what follows them is looked at. -/
def read (source : Text) : Except ReadError Int :=
  let (negative, numeral) := sign (Text.trim isMargin source)
  match digits? false numeral with
  | none => .error (.malformed source)
  | some (ds, rest) =>
    if maxDigits < ds.length then .error (.tooLong ds.length)
    else if !rest.isEmpty then .error (.malformed source)
    else if negative then .ok (-(ofDigits ds : Int))
    else .ok (ofDigits ds)

end TexMark.Integer
