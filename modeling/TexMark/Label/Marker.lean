/-
  TexMark/Label/Marker.lean
  =========================
  **What a label names.** A label stands behind the construct that it names. The constructs
  that count are floats, section headings, formulas and callouts; the last one that begins
  within a window before the label decides. Without any, the label names an equation.

  `Label.nearest?` is `_nearest_marker`, `Label.subjectOf` is `_category`; `Label.classify`
  keeps its name.
-/
import TexMark.Markup.Command
import TexMark.Theorem.Callout

namespace TexMark.Label

/-- A construct that a label may name. -/
inductive Marker where
  /-- The beginning of a figure or table. -/
  | floatBegin (name : Text)
  | floatEnd
  | heading (title : Text)
  | formula
  /-- The head of a callout with the beginning of its first body line, which may hold the
      number of the instance. -/
  | callout (name title : Text) (number? : Option Text)
deriving DecidableEq, Repr

/-- How far before a label its construct may begin, in characters (`LABEL_WINDOW`). -/
def window : Nat := 160

/-! ### Reading markers -/

def floatNames : List Text := ["figure", "table"]

/-- The environments of formulas whose beginning counts. -/
def formulaNames : List Text := ["equation", "align", "gather", "multline"]

def headingNames : List Text := ["chapter", "section", "subsection", "subsubsection"]

/-- One of some names in braces, with or without a star, and blanks before the braces. -/
def bracedOneOf? (names : List Text) (t : Text) : Option (Text × Text) := do
  let opened ← Markup.char? '{' (Text.skipBlanks t)
  let (name, afterName) ← names.findSome? fun name =>
    (Text.dropPrefix? name opened).map fun rest => (name, rest)
  let (_, afterStar) := Markup.star afterName
  return (name, ← Markup.char? '}' afterStar)

/-- Reads a heading: the command, an optional short title, and the title. -/
def heading? (t : Text) : Option (Text × Text) := do
  let (_, afterName) ← Markup.oneOf? headingNames t
  let (_, afterStar) := Markup.star afterName
  let afterShort := match Markup.flatBrackets? (Text.skipBlanks afterStar) with
    | some (_, rest) => rest
    | none => afterStar
  Markup.flatBraces? (Text.skipBlanks afterShort)

/-- Reads the head of a callout, the line break behind it, and the beginning of the first
    body line. -/
def callout? (t : Text) : Option (Marker × Text) := do
  let (name, afterHead) ← Callout.head? t
  let (title, afterTitle) := Markup.run (· != '\n') afterHead
  let body ← Markup.char? '>' (← Markup.char? '\n' afterTitle)
  let unspaced := match body with
    | c :: rest => if Text.isLineBlank c then rest else body
    | [] => []
  match Callout.leadNumber? unspaced with
  | some (number, rest) => return (.callout name title (some number), rest)
  | none => return (.callout name title none, unspaced)

/-- Reads a marker (`_MARKER_RE`). -/
def marker : Recognizer Marker := fun before rest =>
  (((Markup.command? "begin" rest).bind (bracedOneOf? floatNames)).map
    fun r => (.floatBegin r.1, r.2)) <|>
  (((Markup.command? "end" rest).bind (bracedOneOf? floatNames)).map
    fun r => (.floatEnd, r.2)) <|>
  ((heading? rest).map fun r => (.heading r.1, r.2)) <|>
  ((Text.dropPrefix? "$$" rest).map fun after => (.formula, after)) <|>
  ((Text.dropPrefix? "\\[" rest).map fun after => (.formula, after)) <|>
  (((Markup.command? "begin" rest).bind (bracedOneOf? formulaNames)).map
    fun r => (.formula, r.2)) <|>
  (if Scan.atLineStart before then callout? rest else none)

/-! ### The nearest marker -/

/-- The last marker in the window before an offset (`_nearest_marker`). Nothing at or behind the
    offset is read. -/
def nearest? (text : Text) (pos : Nat) : Option Marker :=
  let start := pos - window
  let seen := text.take pos
  ((Scan.hitsFrom marker start (seen.take start).reverse 0 (seen.drop start)).getLast?).map
    (·.value)

/-- What a label names: a category, in which labels are counted, and a name to show. -/
structure Subject where
  category : Text
  name? : Option Text
deriving DecidableEq, Repr

/-- What a label behind a marker names (`_category`). -/
def subjectOf : Option Marker → Subject
  | some (.floatBegin name) => ⟨name, none⟩
  | some (.heading title) => ⟨"section", some (Text.strip title)⟩
  | some (.callout name title _) =>
    ⟨name, if Text.isBlankText title then none else some (Text.strip title)⟩
  | _ => ⟨"equation", none⟩

/-- What the label at an offset names (`classify`). -/
def classify (text : Text) (pos : Nat) : Subject := subjectOf (nearest? text pos)

end TexMark.Label
