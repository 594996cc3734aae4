/-
  TexMark/Markup/BlockQuote.lean
  ==============================
  **Block quotes.** A line of a quotation begins with `>` markers, each with at most one
  blank behind it. Display formulas inside a quotation have to repeat this prefix on each
  of their lines.

  `BlockQuote.prefixAt` is `line_prefix`, `BlockQuote.stripLines` is `strip_prefix`.
-/
import TexMark.Text.Blank
import TexMark.Scan

namespace TexMark.BlockQuote

/-- The quote markers at the head of a text, each with the blank behind it. -/
def markers : Text → Text
  | '>' :: ' ' :: rest => '>' :: ' ' :: markers rest
  | '>' :: '\t' :: rest => '>' :: '\t' :: markers rest
  | '>' :: rest => '>' :: markers rest
  | _ => []

/-- The quote prefix of a line: blanks and at least one marker. Empty if there is none. -/
def linePrefix (line : Text) : Text :=
  let indent := line.takeWhile Text.isLineBlank
  match markers (line.drop indent.length) with
  | [] => []
  | ms => indent ++ ms

/-- The quote prefix before an offset, if nothing else stands before it on its line
    (`line_prefix`). -/
def prefixAt (text : Text) (pos : Nat) : Text :=
  let start := Scan.lineStart text pos
  let front := linePrefix (text.drop start)
  if start + front.length = pos then front else []

/-- A line without the given prefix. A line that holds the prefix alone is left empty,
    whether or not its last blank is there. -/
def stripLine (front line : Text) : Text :=
  match Text.dropPrefix? front line with
  | some rest => rest
  | none => if Text.stripEnd line = Text.stripEnd front then [] else line

/-- Lines without the given prefix (`strip_prefix`). -/
def stripLines (front : Text) (ls : List Text) : List Text :=
  if front.isEmpty then ls else ls.map (stripLine front)

end TexMark.BlockQuote
