/-
  TexMark/Text/Quoted.lean
  ========================
  **Quoted texts in messages.** A message shows a piece of a document between
  quotes, with everything that does not print spelled out, so that the piece can be
  told from the message around it.
-/
import TexMark.Text.Basic
import TexMark.Text.Printable

namespace TexMark.Text

/-- Single quotes stand around a text, unless it holds single quotes and no double
    ones. -/
def quoteFor (t : Text) : Char :=
  if t.contains '\'' && !t.contains '"' then '"' else '\''

/-- A character that does not print, by its code point. -/
def spelledOut (c : Char) : Text :=
  let n := c.toNat
  if n < 0x100 then '\\' :: 'x' :: hex 2 n
  else if n < 0x10000 then '\\' :: 'u' :: hex 4 n
  else '\\' :: 'U' :: hex 8 n

/-- One character between quotes of the given kind. -/
def quotedChar (quote c : Char) : Text :=
  if c == quote || c == '\\' then ['\\', c]
  else if c == '\n' then ['\\', 'n']
  else if c == '\r' then ['\\', 'r']
  else if c == '\t' then ['\\', 't']
  else if isPrintable c then [c]
  else spelledOut c

def quoted (t : Text) : Text :=
  let quote := quoteFor t
  quote :: (t.flatMap (quotedChar quote) ++ [quote])

end TexMark.Text
