/-
  TexMark/Config.lean
  ===================
  **Options of a conversion.** A conversion goes in one of two directions, and by options of
  which each has a default. Options are a value: a conversion never changes them.

  `Config` is `PipelineConfig`; `Direction` and `ReferenceMode` keep their names.
-/
import TexMark.Table

namespace TexMark

/-- The two ways in which a document can be converted. -/
inductive Direction where
  /-- From TeX to Markdown. -/
  | forward
  /-- From Markdown to TeX. -/
  | reverse
deriving DecidableEq, Repr

def Direction.name : Direction → Text
  | forward => "forward"
  | reverse => "reverse"

def Direction.ofName? (t : Text) : Option Direction :=
  [forward, reverse].find? fun d => d.name == t

/-- What becomes of reference commands. -/
inductive ReferenceMode where
  /-- They stay. -/
  | ignore
  /-- They show the label. -/
  | placeholder
  /-- They show what the label names. -/
  | resolve
deriving DecidableEq, Repr

namespace ReferenceMode

def all : List ReferenceMode := [ignore, placeholder, resolve]

def name : ReferenceMode → Text
  | ignore => "ignore"
  | placeholder => "placeholder"
  | resolve => "resolve"

def ofName? (t : Text) : Option ReferenceMode := all.find? fun m => m.name == t

def listed : Text := Text.join ", " (all.map name)

end ReferenceMode

/-- The **options** of a conversion (`PipelineConfig`). The templates give the text for each
    citation and reference command. -/
structure Config where
  convertEnvironments : Bool
  extraEnvironments : List Text
  convertLegacyArrays : Bool
  removeLabels : Bool
  referenceMode : ReferenceMode
  expandMacros : Bool
  convertCitations : Bool
  stripSizing : Bool
  unifyProse : Bool
  numberEquations : Bool
  labelBase : Int
  citationTemplates : Table Text
  referenceTemplates : Table Text
deriving DecidableEq, Repr

namespace Config

def defaultCitationTemplates : Table Text :=
  [("cite", "[cite: $key]"), ("citep", "[cite: $key]"), ("citet", "[citet: $key]"),
   ("citeauthor", "[author: $key]"), ("citeyear", "[year: $key]"),
   ("citetitle", "[title: $key]"), ("fullcite", "[fullcite: $key]")]

def defaultReferenceTemplates : Table Text :=
  [("ref", "$number"), ("eqref", "($number)"), ("pageref", "page $page"), ("nameref", "$name"),
   ("autoref", "$type $number"), ("vref", "$type $number on page $page")]

/-- The options of a conversion for which none are given. -/
def default : Config where
  convertEnvironments := true
  extraEnvironments := []
  convertLegacyArrays := true
  removeLabels := false
  referenceMode := .resolve
  expandMacros := true
  convertCitations := true
  stripSizing := true
  unifyProse := true
  numberEquations := false
  labelBase := 1
  citationTemplates := defaultCitationTemplates
  referenceTemplates := defaultReferenceTemplates

end Config

end TexMark
