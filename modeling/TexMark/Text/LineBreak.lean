/-
  TexMark/Text/LineBreak.lean
  ===========================
  **Line boundaries.** A text file may end its lines in several ways. Reading one
  with `unifyLineFeeds` leaves line feeds only; `splitLines` then honours every
  character that separates lines: line feed, carriage return, vertical tab, form
  feed, the file, group and record separators, next line, line separator and
  paragraph separator.
-/
import TexMark.Text.Basic

namespace TexMark.Text

def isLineBoundary (c : Char) : Bool :=
  (10 ≤ c.toNat && c.toNat ≤ 13) || (28 ≤ c.toNat && c.toNat ≤ 30) ||
  c.toNat == 0x85 || c.toNat == 0x2028 || c.toNat == 0x2029

/-- Every carriage return, with the line feed after it if there is one, becomes a
    line feed. -/
def unifyLineFeeds : Text → Text
  | [] => []
  | '\r' :: '\n' :: rest => '\n' :: unifyLineFeeds rest
  | '\r' :: rest => '\n' :: unifyLineFeeds rest
  | c :: rest => c :: unifyLineFeeds rest

/-- The lines with the one under way, which is `none` right after a boundary. -/
def splitLinesFrom (line : Option Text) : Text → List Text
  | [] => line.toList
  | '\r' :: '\n' :: rest => line.getD [] :: splitLinesFrom none rest
  | c :: rest =>
    if isLineBoundary c then line.getD [] :: splitLinesFrom none rest
    else splitLinesFrom (some (line.getD [] ++ [c])) rest

/-- The lines of a text. A boundary at its end opens no further line. -/
def splitLines (t : Text) : List Text := splitLinesFrom none t

end TexMark.Text
