/-
  TexMark/Message/Directive.lean
  ==============================
  **Directives in messages.** A directive begins with a percent sign. Then it may name its
  value in parentheses, and may have flags, a least width, a precision behind a point, and one
  letter for the size of the value, which means nothing here. At its end stands the letter that
  says how the value is written. Two percent signs stand for one.
-/
import TexMark.Text.Integer

namespace TexMark.Message

/-- Which value a directive writes. -/
inductive Choice where
  /-- The next one. -/
  | next
  /-- The one of a name. -/
  | named (name : Text)
  /-- The name has no end. -/
  | unclosed
deriving DecidableEq, Repr

/-- A count in a directive. -/
inductive Count where
  | absent
  | written (n : Nat)
  /-- The next value is the count. -/
  | taken
deriving DecidableEq, Repr

/-- How a value is laid out. -/
structure Flags where
  /-- Blanks go behind the value, not before it. -/
  leftAligned : Bool
  /-- Zeros fill a number up. -/
  zeroFilled : Bool
  /-- What stands before a number that is not negative. -/
  plus : Text
  /-- Numbers of other bases show their base, and fractions all their zeros. -/
  full : Bool
deriving DecidableEq, Repr

/-- A directive. Its letter is missing if the message ends before. -/
structure Directive where
  choice : Choice
  flags : Flags
  width : Count
  precision : Count
  letter? : Option Char
deriving DecidableEq, Repr

/-- A piece of a message. -/
inductive Piece where
  | char (c : Char)
  /-- A directive, and the place of its last character. -/
  | directive (d : Directive) (last : Nat)
deriving DecidableEq, Repr

/-! ### Parts of directives -/

/-- Reads a name up to the parenthesis that closes it. `inner` parentheses are open within
    it. -/
def readName? (inner : Nat) : Text → Option (Text × Text)
  | [] => none
  | c :: rest =>
    if c == ')' then
      match inner with
      | 0 => some ([], rest)
      | inner + 1 => (readName? inner rest).map fun r => (c :: r.1, r.2)
    else (readName? (if c == '(' then inner + 1 else inner) rest).map fun r => (c :: r.1, r.2)

def readChoice : Text → Choice × Text
  | '(' :: rest => match readName? 0 rest with
    | some (name, after) => (.named name, after)
    | none => (.unclosed, [])
  | t => (.next, t)

def Flags.none : Flags := ⟨false, false, [], false⟩

/-- The layout with a flag, if the character is one. -/
def Flags.with? (f : Flags) (c : Char) : Option Flags :=
  if c == '-' then some { f with leftAligned := true }
  else if c == '0' then some { f with zeroFilled := true }
  else if c == '+' then some { f with plus := ['+'] }
  else if c == ' ' then some { f with plus := if f.plus.isEmpty then [' '] else f.plus }
  else if c == '#' then some { f with full := true }
  else Option.none

def readFlags (f : Flags) : Text → Flags × Text
  | [] => (f, [])
  | c :: rest => match f.with? c with
    | some g => readFlags g rest
    | none => (f, c :: rest)

/-- Reads a count: digits, or an asterisk for a count among the values. -/
def readCount : Text → Count × Text
  | '*' :: rest => (.taken, rest)
  | t =>
    let digits := t.takeWhile Char.isDigit
    if digits.isEmpty then (.absent, t)
    else (.written (Integer.ofDigits (digits.map fun c => c.toNat - 48)), t.dropWhile Char.isDigit)

/-- Reads a precision. Without a count behind its point it is zero. -/
def readPrecision : Text → Count × Text
  | '.' :: rest => match readCount rest with
    | (.absent, after) => (.written 0, after)
    | r => r
  | t => (.absent, t)

/-- Leaves out the letter for the size of the value. -/
def dropSize : Text → Text
  | [] => []
  | c :: rest => if c == 'h' || c == 'l' || c == 'L' then rest else c :: rest

/-- Reads a directive from behind its percent sign. -/
def Directive.read (t : Text) : Directive × Text :=
  let (choice, afterChoice) := readChoice t
  let (flags, afterFlags) := readFlags .none afterChoice
  let (width, afterWidth) := readCount afterFlags
  let (precision, afterPrecision) := readPrecision afterWidth
  let ending := dropSize afterPrecision
  (⟨choice, flags, width, precision, ending.head?⟩, ending.drop 1)

/-! ### Messages -/

/-- The pieces of the rest of a message, of which `skip` characters have been read and which
    begins at `place`. -/
def piecesFrom (place skip : Nat) : Text → List Piece
  | [] => []
  | c :: rest =>
    match skip with
    | skip + 1 => piecesFrom (place + 1) skip rest
    | 0 =>
      if c != '%' then .char c :: piecesFrom (place + 1) 0 rest
      else if rest.head? == some '%' then .char '%' :: piecesFrom (place + 1) 1 rest
      else
        let (d, after) := Directive.read rest
        let size := rest.length - after.length
        .directive d (place + size) :: piecesFrom (place + 1) size rest

def pieces (message : Text) : List Piece := piecesFrom 0 0 message

end TexMark.Message
