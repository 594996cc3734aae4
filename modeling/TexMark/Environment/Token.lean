/-
  TexMark/Environment/Token.lean
  ==============================
  **The marks of a document's structure.** Beginnings and ends of environments, sections,
  and declarations of theorems.

  `Environment.token` is the pattern `_TOKEN_RE`.
-/
import TexMark.Theorem.Register

namespace TexMark.Environment

/-- A mark of structure. -/
inductive Token where
  | opening (name : Text)
  | closing (name : Text)
  | section_ (starred : Bool)
  | declaration
deriving DecidableEq, Repr

/-- Characters of which the name of an environment is made. -/
def isNameChar (c : Char) : Bool := c != '{' && c != '}' && !Text.isBlank c

/-- The name of an environment in braces, with blanks before and inside them. -/
def bracedName? (t : Text) : Option (Text × Text) := do
  let opened ← Markup.char? '{' (Text.skipBlanks t)
  let (name, afterName) := Markup.run isNameChar (Text.skipBlanks opened)
  let rest ← Markup.char? '}' (Text.skipBlanks afterName)
  if name.isEmpty then none else some (name, rest)

/-- Reads the heading command of a section; a bracket or a brace has to follow. -/
def section? (t : Text) : Option (Bool × Text) := do
  let (starred, afterStar) := Markup.star (← Markup.command? "section" t)
  let rest := Text.skipBlanks afterStar
  if rest.head? = some '[' ∨ rest.head? = some '{' then some (starred, rest) else none

/-- Reads the beginning of a declaration, up to its first brace. -/
def declaration? (t : Text) : Option Text := do
  let (_, afterStar) := Markup.star (← Markup.command? "newtheorem" t)
  Markup.char? '{' (Text.skipBlanks afterStar)

/-- Reads a mark of structure (`_TOKEN_RE`). -/
def token : Recognizer Token := fun _ rest =>
  (((Markup.command? "begin" rest).bind bracedName?).map fun r => (.opening r.1, r.2)) <|>
  (((Markup.command? "end" rest).bind bracedName?).map fun r => (.closing r.1, r.2)) <|>
  ((section? rest).map fun r => (.section_ r.1, r.2)) <|>
  ((declaration? rest).map fun after => (.declaration, after))

end TexMark.Environment
