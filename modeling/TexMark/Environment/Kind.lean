/-
  TexMark/Environment/Kind.lean
  =============================
  **Kinds of environments.** Which environments hold formulas, which of them may stand
  inside which, and by which converter each is turned into Markdown.

  The tables are `INNER_MATH_ENVIRONMENTS`, `DISPLAY_ENVIRONMENTS`,
  `LEGACY_ARRAY_ENVIRONMENTS`, `CONTAINER_ENVIRONMENTS`, `NESTING_RULES` and what
  `default_converters` answers.
-/
import TexMark.Table

namespace TexMark.Environment

/-! ### Families -/

def matrixNames : List Text :=
  ["matrix", "pmatrix", "bmatrix", "Bmatrix", "vmatrix", "Vmatrix", "smallmatrix"]

def blockNames : List Text := ["cases", "array", "subarray", "aligned", "gathered", "alignedat"]

def innerNames : List Text := matrixNames ++ blockNames

def equationNames : List Text := ["equation", "equation*", "displaymath"]

def alignedNames : List Text :=
  ["align", "align*", "flalign", "flalign*", "alignat", "alignat*", "eqnarray", "eqnarray*"]

def gatherNames : List Text := ["gather", "gather*"]

/-- Environments of one formula that is broken into rows. -/
def multlineNames : List Text := ["multline", "multline*"]

/-- The environment that breaks one equation into rows. -/
def splitNames : List Text := ["split"]

def diagramNames : List Text := ["CD"]

def displayNames : List Text :=
  equationNames ++ alignedNames ++ gatherNames ++ multlineNames ++ splitNames ++ diagramNames

/-- Environments with alignment columns of the old form, which a document may ask to leave
    alone. -/
def legacyNames : List Text := ["eqnarray", "eqnarray*"]

/-- Environments around other environments, which leave nothing of themselves. -/
def containerNames : List Text := ["subequations"]

/-- Environments whose beginning takes one argument. -/
def argumentNames : List Text := ["array", "subarray", "alignat", "alignat*", "alignedat"]

def numberedNames : List Text := ["equation", "multline"]

/-! ### Nesting -/

/-- The environments that may stand directly inside another; no answer means that any may
    (`NESTING_RULES`). -/
def allowedInside? (outer : Text) : Option (List Text) :=
  if innerNames.contains outer then some innerNames
  else if equationNames.contains outer then some (innerNames ++ splitNames)
  else if displayNames.contains outer then some innerNames
  else none

/-- May an environment stand directly inside another? -/
def mayNest (outer inner : Text) : Bool :=
  match allowedInside? outer with
  | some names => names.contains inner
  | none => true

/-! ### Converters -/

/-- The ways in which an environment is turned into Markdown. -/
inductive Converter where
  /-- A display formula. -/
  | equation
  /-- A display formula of aligned rows. -/
  | aligned
  /-- A display formula of centred rows. -/
  | gather
  /-- A display formula of rows indented further and further. -/
  | multline
  /-- The environment itself, with its rows one on a line. -/
  | inner
  /-- The content alone. -/
  | container
  /-- The environment itself, as a display formula; it is reported. -/
  | unknown
deriving DecidableEq, Repr

/-- The converters in use, by the name of the environment. -/
abbrev Converters := Table Converter

/-- The converters by the families of environments (`default_converters`). -/
def defaultConverters : Converters :=
  let under (converter : Converter) (names : List Text) : Converters :=
    names.map fun name => (name, converter)
  under .equation equationNames ++ under .aligned alignedNames ++
    under .gather gatherNames ++ under .multline multlineNames ++
    under .inner (innerNames ++ splitNames ++ diagramNames) ++
    under .container containerNames

end TexMark.Environment
