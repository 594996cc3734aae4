/-
  TexMark/Layout.lean
  ===================
  **The last touches.** Prose inside formulas is written with one command, blanks at line
  ends are dropped, and runs of empty lines shrink to one.

  `Layout.unifyProse` is `unify_prose_command`, `Layout.tidy` is `tidy_blank_lines`.
-/
import TexMark.Markup.Command

namespace TexMark.Layout

/-- The command for prose in formulas, in front of its group. -/
def prose : Recognizer Text := fun _ rest => do
  let t := Text.skipBlanks (← Markup.word? "text" rest)
  if t.head? = some '{' then some ("\\mathrm", t) else none

/-- Writes prose in formulas with the command for upright letters (`unify_prose_command`). -/
def unifyProse (text : Text) : Text := Scan.replace prose text

/-- Drops the blanks and tabs at the ends of lines. -/
def trimLines (text : Text) : Text :=
  Text.unlines ((Text.lines text).map (Text.trimEnd Text.isLineBlank))

/-- Leaves two line feeds of each run of them; `passed` of the current run stand before. -/
def shortenRuns (passed : Nat) : Text → Text
  | [] => []
  | c :: rest =>
    if c = '\n' then
      if passed < 2 then c :: shortenRuns (passed + 1) rest else shortenRuns passed rest
    else c :: shortenRuns 0 rest

/-- Drops blanks at line ends and all but one of neighbouring empty lines (`tidy_blank_lines`). -/
def tidy (text : Text) : Text := shortenRuns 0 (trimLines text)

end TexMark.Layout
