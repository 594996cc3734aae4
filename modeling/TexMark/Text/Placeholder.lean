/-
  TexMark/Text/Placeholder.lean
  =============================
  **Templates.** A template is a text with named gaps: `$name`, or the name in
  braces after the dollar sign; two dollar signs stand for one. A gap without a
  value, and a dollar sign that opens no gap, stay as they are written. A value is
  put in as it is: what it holds is never read as a gap. Names are made of ASCII
  letters, digits and underscores.
-/
import TexMark.Text.Letter
import TexMark.Text.Basic

namespace TexMark.Template

def isNameStart (c : Char) : Bool := Text.isAsciiLetter c || c == '_'

def isNamePart (c : Char) : Bool := isNameStart c || ('0' ≤ c && c ≤ '9')

/-- The name at the head of a text; empty if there is none. -/
def nameAtHead : Text → Text
  | [] => []
  | c :: rest => if isNameStart c then c :: rest.takeWhile isNamePart else []

/-- A gap as it is written, from behind its dollar sign. -/
structure Gap where
  name : Text
  length : Nat

/-- Reads a gap from behind its dollar sign: a name, or a name in braces. -/
def gap? (t : Text) : Option Gap :=
  match t with
  | '{' :: rest =>
    let name := nameAtHead rest
    if name.isEmpty then none
    else if (rest.drop name.length).head? == some '}' then some ⟨name, name.length + 2⟩
    else none
  | _ =>
    let name := nameAtHead t
    if name.isEmpty then none else some ⟨name, name.length⟩

/-- Fills the gaps, passing over the first `skip` characters. -/
def fillFrom (value? : Text → Option Text) (skip : Nat) : Text → Text
  | [] => []
  | c :: rest =>
    match skip with
    | skip + 1 => fillFrom value? skip rest
    | 0 =>
      if c != '$' then c :: fillFrom value? 0 rest
      else if rest.head? == some '$' then '$' :: fillFrom value? 1 rest
      else match gap? rest with
        | none => '$' :: fillFrom value? 0 rest
        | some g => match value? g.name with
          | some v => v ++ fillFrom value? g.length rest
          | none => '$' :: (rest.take g.length ++ fillFrom value? g.length rest)

/-- The template with every gap that has a value filled by it. -/
def fill (template : Text) (values : List (Text × Text)) : Text :=
  fillFrom (fun name => (values.find? fun e => e.1 == name).map (·.2)) 0 template

end TexMark.Template
