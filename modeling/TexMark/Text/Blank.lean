/-
  TexMark/Text/Blank.lean
  =======================
  **Blanks.** A blank is a character of the Unicode categories of separators, or
  one of the controls that separate words, lines, paragraphs or records.
-/
import TexMark.Text.Basic

namespace TexMark.Text

/-- Blank characters: tab to carriage return, the four information separators, the
    space, the next-line control, the no-break space, and the spaces and separators
    of typography. -/
def isBlank (c : Char) : Bool :=
  (9 ≤ c.toNat && c.toNat ≤ 13) || (28 ≤ c.toNat && c.toNat ≤ 32) ||
  c.toNat == 0x85 || c.toNat == 0xA0 || c.toNat == 0x1680 ||
  (0x2000 ≤ c.toNat && c.toNat ≤ 0x200A) || c.toNat == 0x2028 || c.toNat == 0x2029 ||
  c.toNat == 0x202F || c.toNat == 0x205F || c.toNat == 0x3000

/-- The space and the tab, which separate words of one line. -/
def isLineBlank (c : Char) : Bool := c == ' ' || c == '\t'

def strip (t : Text) : Text := trim isBlank t

def stripEnd (t : Text) : Text := trimEnd isBlank t

def skipBlanks (t : Text) : Text := t.dropWhile isBlank

def isBlankText (t : Text) : Bool := t.all isBlank

end TexMark.Text
