/-
  TexMark/Environment/Frame.lean
  ==============================
  **Converting one environment.** A frame is an environment of the document: its name,
  where it begins, and what was read at its beginning. `Frame.convert` turns a frame and
  its content, in which the environments inside are converted already, into Markdown.

  `Converter.apply` gathers `convert_equation`, `convert_aligned`, `convert_gather`,
  `convert_multline`, `convert_inner`, `convert_container` and `convert_unknown`;
  `Frame.convert` is `_convert`.
-/
import TexMark.Diagnostic
import TexMark.Delimiter
import TexMark.Environment.Kind
import TexMark.Markup.Rows
import TexMark.Theorem.Callout

namespace TexMark.Environment

/-- An environment whose beginning has been read (`Frame`). `inline` says that other text stands
    before it on its line. The edits are those of the environments inside it. -/
structure Frame where
  name : Text
  start : Nat
  contentStart : Nat
  edits : List Edit
  argument? : Option Text
  number? : Option Text
  title? : Option Text
  inline : Bool
deriving DecidableEq, Repr

/-- What a conversion of environments goes by. -/
structure Settings where
  converters : Converters
  /-- Further environments to convert. -/
  extraNames : List Text
  /-- Are column environments of the old form converted? -/
  convertLegacy : Bool
  /-- Are equations numbered? -/
  numberEquations : Bool

/-! ### Rows -/

def wrapped (name argument body : Text) : Text :=
  Markup.beginMarker name ++ argument ++ '\n' :: body ++ '\n' :: Markup.endMarker name

/-- Takes the second of the first two column marks of a row away, with the blanks around the cell
    between them (`_EQNARRAY_CELL`). -/
def mergeColumns : Text → Text
  | [] => []
  | c :: rest =>
    if c = '&' then
      let (cell, after) := Markup.run (· != '&') rest
      match after with
      | _ :: tail => '&' :: Text.strip cell ++ tail
      | [] => c :: rest
    else c :: mergeColumns rest

/-- The rows of a broken formula: each begins with a column mark, and all but the first
    are indented, the last most. -/
def indentedRows (rows : List Text) : List Text :=
  rows.mapIdx fun i row =>
    if i = 0 then "& " ++ row
    else if i + 1 = rows.length then "& \\qquad " ++ row
    else "& \\quad " ++ row

/-! ### Numbers of equations -/

def forbidsNumber (t : Text) : Bool :=
  (Markup.word? "notag" t).isSome || (Markup.word? "nonumber" t).isSome

def isUnnumbered (body : Text) : Bool := Scan.occurs forbidsNumber body

/-- The formula with its number, if it gets one, and the number of equations counted
    (`_with_tag`). -/
def withTag (settings : Settings) (frame : Frame) (body : Text) (equations : Nat) : Text × Nat :=
  if settings.numberEquations && numberedNames.contains frame.name && !isUnnumbered body then
    (body ++ " \\tag" ++ Text.braced (Text.ofNat (equations + 1)), equations + 1)
  else (body, equations)

/-! ### The converters -/

def alignedRows (frame : Frame) (content : Text) : List Text :=
  let rows := Rows.split content
  if legacyNames.contains frame.name then rows.map mergeColumns else rows

/-- Applies a converter; `equations` counts the numbered equations so far. -/
def Converter.apply (converter : Converter) (settings : Settings) (frame : Frame)
    (content : Text) (equations : Nat) : Noted (Text × Nat) :=
  match converter with
  | .equation =>
    let (body, n) := withTag settings frame (Text.strip content) equations
    pure (Delimiter.display body, n)
  | .aligned =>
    let body := wrapped "aligned" [] (Rows.join (alignedRows frame content))
    pure (Delimiter.display body, equations)
  | .gather =>
    pure (Delimiter.display (wrapped "gathered" [] (Rows.reflow content)), equations)
  | .multline =>
    let rows := wrapped "aligned" [] (Rows.join (indentedRows (Rows.split content)))
    let (body, n) := withTag settings frame rows equations
    pure (Delimiter.display body, n)
  | .inner =>
    let argument := match frame.argument? with
      | some argument => Text.braced argument
      | none => []
    pure (wrapped frame.name argument (Rows.reflow content), equations)
  | .container => pure (Text.strip content, equations)
  | .unknown => do
    Noted.report .unknownEnvironment
      ("No converter for environment " ++ frame.name ++ "; wrapped as display math") frame.start
    return (Delimiter.display (wrapped frame.name [] (Text.strip content)), equations)

/-- Is an environment a theorem, by declaration or by default? -/
def isTheorem (register : TheoremRegister) (name : Text) : Bool :=
  register.kinds.has name || Callout.defaultNames.contains name

/-- Converts a frame with its content (`_convert`). A callout counts only where a block begins, so
    that an empty line goes before one inside a line. -/
def Frame.convert (settings : Settings) (register : TheoremRegister) (frame : Frame)
    (content : Text) (equations : Nat) : Noted (Text × Nat) :=
  match settings.converters.get? frame.name with
  | some converter => converter.apply settings frame content equations
  | none =>
    if isTheorem register frame.name then
      let callout := Callout.render register frame.name content frame.number? frame.title?
      pure (if frame.inline then '\n' :: '\n' :: callout else callout, equations)
    else Converter.unknown.apply settings frame content equations

end TexMark.Environment
