/-
  TexMark/Sizing.lean
  ===================
  **Sizes of delimiters.** TeX asks for the size of a delimiter with `\left` and `\right`,
  or with the `\big` family. In front of plain delimiters these commands are dropped:
  `\left` and `\right` only in pairs, both of plain delimiters. The invisible delimiter is
  dropped with its command.

  `Sizing.stripPairs` is `strip_left_right`, `Sizing.stripAll` is `strip_sizing_commands`.
-/
import TexMark.Diagnostic
import TexMark.Markup.Command

namespace TexMark.Sizing

/-! ### Paired sizes -/

/-- The two sides of a pair. -/
inductive Side where
  | left
  | right
deriving DecidableEq, Repr

/-- A sizing command of a pair with its delimiter. -/
structure Sized where
  side : Side
  delimiter : Text
deriving DecidableEq, Repr

/-- Reads a delimiter: a command, an escaped character, or a character that is no blank. -/
def delimiter? : Text → Option (Text × Text)
  | [] => none
  | '\\' :: rest =>
    match rest with
    | [] => none
    | c :: more =>
      if Text.isAsciiLetter c then
        let (name, after) := Markup.run Text.isAsciiLetter rest
        some ('\\' :: name, after)
      else if c = '\n' then none
      else some (['\\', c], more)
  | c :: rest => if Text.isBlank c then none else some ([c], rest)

/-- Reads a sizing command of a pair, with its delimiter. -/
def sized : Recognizer Sized := fun _ rest =>
  let side (name : Text) (s : Side) : Option (Sized × Text) := do
    let (delimiter, after) ← delimiter? (Text.skipBlanks (← Markup.word? name rest))
    return (⟨s, delimiter⟩, after)
  side "left" .left <|> side "right" .right

def isDelimiterChar (c : Char) : Bool := "()[]|".toList.contains c

/-- Characters that are delimiters when they are escaped. -/
def isEscapedDelimiter (c : Char) : Bool := c == '{' || c == '}' || c == '|'

/-- The delimiters that need no sizing command to be written. -/
def isPlain : Text → Bool
  | [c] => isDelimiterChar c || c == '.'
  | ['\\', c] => isEscapedDelimiter c
  | _ => false

/-- The edit that leaves the delimiter alone, or nothing of an invisible one (`_unsized`). -/
def bare (h : Hit Sized) : Edit :=
  ⟨h.start, h.stop, if h.value.delimiter = ['.'] then [] else h.value.delimiter⟩

/-- The openings that wait for their closing side, and the edits so far. -/
structure Pairing where
  waiting : List (Hit Sized)
  edits : List Edit

def pairUp (s : Pairing) (h : Hit Sized) : Pairing :=
  match h.value.side, s.waiting with
  | .left, waiting => { s with waiting := h :: waiting }
  | .right, [] => s
  | .right, opening :: waiting =>
    if isPlain opening.value.delimiter && isPlain h.value.delimiter then
      ⟨waiting, s.edits ++ [bare opening, bare h]⟩
    else { s with waiting := waiting }

/-- Drops the sizing of the pairs whose two delimiters are plain (`strip_left_right`). -/
def stripPairs (text : Text) : Noted Text :=
  let found := (Scan.hits sized text).filter fun h => !Scan.isEscaped text h.start
  Noted.edited text (found.foldl pairUp ⟨[], []⟩).edits

/-! ### Single sizes -/

/-- Drops one of some characters from the head of a text, if it stands there. -/
def dropOneOf (chars : List Char) : Text → Text
  | [] => []
  | c :: rest => if chars.contains c then rest else c :: rest

/-- Reads a command of the `\big` family: `big`, `Big`, `bigg` or `Bigg`, with or without a
    letter for the side. -/
def big? (t : Text) : Option Text := do
  let afterBig ← Markup.command? "big" t <|> Markup.command? "Big" t
  let afterName := dropOneOf ['l', 'r', 'm'] (dropOneOf ['g'] afterBig)
  if Markup.nameEnds afterName then some afterName else none

/-- Does a delimiter follow that can be written without a size? -/
def delimiterFollows : Text → Bool
  | '\\' :: c :: _ => isEscapedDelimiter c
  | c :: _ => isDelimiterChar c
  | [] => false

/-- A single size with the invisible delimiter behind it. -/
def invisible : Recognizer Text := fun _ rest => do
  let t ← big? rest
  return ([], ← Markup.char? '.' (Text.skipBlanks t))

def single : Recognizer Text := fun _ rest => do
  let t := Text.skipBlanks (← big? rest)
  if delimiterFollows t then some ([], t) else none

/-- Drops the sizing commands: first those of pairs, then the single ones
    (`strip_sizing_commands`). -/
def stripAll (text : Text) : Noted Text := do
  return Scan.replace single (Scan.replace invisible (← stripPairs text))

end TexMark.Sizing
