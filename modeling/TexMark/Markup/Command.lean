/-
  TexMark/Markup/Command.lean
  ===========================
  **Commands.** A command is a backslash with a name of letters, or with a single other
  character. The readers here answer what follows that which they look for at the head
  of a text, or nothing when it is not there.
-/
import TexMark.Text.Blank
import TexMark.Text.Letter
import TexMark.Scan

namespace TexMark.Markup

/-- Does no letter follow, so that a command name is complete? -/
def nameEnds (t : Text) : Bool :=
  match t with
  | [] => true
  | c :: _ => !Text.isAsciiLetter c

/-- What follows a character, if the text begins with it. -/
def char? (c : Char) : Text → Option Text
  | [] => none
  | d :: rest => if d = c then some rest else none

/-- What follows a backslash and a name, whether or not the name goes on. -/
def command? (name t : Text) : Option Text := Text.dropPrefix? ('\\' :: name) t

/-- What follows a complete command of the given name. -/
def word? (name t : Text) : Option Text := (command? name t).filter nameEnds

/-- The first of some commands that the text begins with, and what follows it. -/
def oneOf? (names : List Text) (t : Text) : Option (Text × Text) :=
  names.findSome? fun name => (command? name t).map fun rest => (name, rest)

def star : Text → Bool × Text
  | '*' :: rest => (true, rest)
  | t => (false, t)

/-- The text up to the first character outside a class, and the text from there on. -/
def run (inside : Char → Bool) (t : Text) : Text × Text := (t.takeWhile inside, t.dropWhile inside)

/-- The content of a brace pair that holds no brace, and what follows the pair. -/
def flatBraces? (t : Text) : Option (Text × Text) := do
  let (inner, rest) := run (fun c => c != '{' && c != '}') (← char? '{' t)
  return (inner, ← char? '}' rest)

/-- The content of a bracket pair, which ends at the first closing bracket, and what
    follows the pair. -/
def flatBrackets? (t : Text) : Option (Text × Text) := do
  let (inner, rest) := run (· != ']') (← char? '[' t)
  return (inner, ← char? ']' rest)

/-- A command name with its backslash: letters, or one character that is neither letter
    nor blank. -/
def controlSequence? : Text → Option (Text × Text)
  | '\\' :: c :: rest =>
    if Text.isAsciiLetter c then
      let (name, after) := run Text.isAsciiLetter (c :: rest)
      some ('\\' :: name, after)
    else if Text.isBlank c then none
    else some (['\\', c], rest)
  | _ => none

/-- The written form of the beginning of an environment. -/
def beginMarker (name : Text) : Text := "\\begin" ++ Text.braced name

/-- The written form of the end of an environment. -/
def endMarker (name : Text) : Text := "\\end" ++ Text.braced name

end TexMark.Markup
