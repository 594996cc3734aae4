/-
  TexMark/Message/Error.lean
  ==========================
  **Refusals of messages.** Here are the causes for which a message cannot be filled with its
  values, and their wording.
-/
import TexMark.Text.Quoted

namespace TexMark.Message

/-- The two counts of a directive: the least length of what it writes, and its precision. -/
inductive Measure where
  | width
  | precision
deriving DecidableEq, Repr

namespace Measure

def name : Measure → Text
  | width => "width"
  | precision => "precision"

def bits : Measure → Nat
  | width => 64
  | precision => 32

def wordName : Measure → Text
  | width => "C ssize_t"
  | precision => "C int"

end Measure

/-- Why values do not fit into a message. -/
inductive FormatError where
  | tooFewValues
  | tooManyValues
  /-- The message ends within a directive. -/
  | incomplete
  /-- The message ends within the name of a value. -/
  | incompleteName
  /-- A directive names its value, and the values have no names. -/
  | namesWithoutObject
  | noSuchName (name : Text)
  /-- A count that is written in the message is no word. -/
  | countTooBig (measure : Measure)
  /-- A count that is among the values is no integer. -/
  | countNotInteger
  /-- A count that is among the values is no word. -/
  | countTooLarge (measure : Measure)
  /-- More digits are asked for than an integer may be written with. -/
  | tooPrecise
  /-- What a directive would write is too long to be kept. -/
  | tooLong
  /-- The letter of the directive, and the kind of the value. -/
  | notNumber (letter : Char) (found : Text)
  | notInteger (letter : Char) (found : Text)
  /-- The kind of a value that is to be written with a fraction. -/
  | notReal (found : Text)
  | nanToInteger
  | infinityToInteger
  | notCharacter
  | noSuchCharacter
  | tooLarge
  /-- The letter, and its place in the message. -/
  | unknownLetter (letter : Char) (place : Nat)
deriving DecidableEq, Repr

/-- The form of a letter in a refusal: a question mark stands for one outside ASCII and for
    most control characters. -/
def shownLetter (c : Char) : Char := if 31 ≤ c.toNat ∧ c.toNat ≤ 126 then c else '?'

def FormatError.message : FormatError → Text
  | tooFewValues => "not enough arguments for format string"
  | tooManyValues => "not all arguments converted during string formatting"
  | incomplete => "incomplete format"
  | incompleteName => "incomplete format key"
  | namesWithoutObject => "format requires a mapping"
  | noSuchName name => Text.quoted name
  | countTooBig measure => measure.name ++ " too big"
  | countNotInteger => "* wants int"
  | countTooLarge measure => "Python int too large to convert to " ++ measure.wordName
  | tooPrecise => "precision too large"
  | tooLong => ""
  | notNumber letter found =>
    '%' :: letter :: " format: a real number is required, not ".toList ++ found
  | notInteger letter found =>
    '%' :: letter :: " format: an integer is required, not ".toList ++ found
  | notReal found => "must be real number, not " ++ found
  | nanToInteger => "cannot convert float NaN to integer"
  | infinityToInteger => "cannot convert float infinity to integer"
  | notCharacter => "%c requires int or char"
  | noSuchCharacter => "%c arg not in range(0x110000)"
  | tooLarge => "int too large to convert to float"
  | unknownLetter letter place =>
    "unsupported format character " ++ ['\'', shownLetter letter, '\''] ++ " (0x" ++
      Nat.toDigits 16 letter.toNat ++ ") at index " ++ Text.ofNat place

end TexMark.Message
