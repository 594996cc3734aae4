/-
  TexMark/Reference.lean
  ======================
  **References.** A reference command names a label. Depending on the mode it stays, shows
  the label itself, or shows what the label names, by a template of the command. Values put
  into a template are never read as templates.

  `Reference.lookedUp` is `_resolve`, `Reference.replaceAll` is `rewrite_references`.
-/
import TexMark.Config
import TexMark.Label.Collect
import TexMark.Text.Placeholder

namespace TexMark.Reference

def commandNames : List Text := ["ref", "eqref", "pageref", "nameref", "autoref", "vref"]

/-- A reference: its command, and its label as it is written. -/
structure Command where
  name : Text
  label : Text
deriving DecidableEq, Repr

def command : Recognizer Command := fun _ rest => do
  let (name, afterName) ← Markup.oneOf? commandNames rest
  let (_, afterStar) := Markup.star afterName
  let (label, after) ← Markup.flatBraces? (Text.skipBlanks afterStar)
  return (⟨name, label⟩, after)

/-- What stands for a reference that leads nowhere (`UNRESOLVED`). -/
def unresolved : Text := "(?)"

def unknownPage : Text := "?"

/-- How a reference shows its label when labels are not looked up. -/
def placeholder (name label : Text) : Text :=
  if name = "eqref" then "(Equation " ++ label ++ ")"
  else if name = "pageref" then "page " ++ label
  else if name = "nameref" then label
  else Text.bracketed label

/-- A category as it opens a phrase: its first letter is a capital, the others are not. -/
def categoryTitle : Text → Text
  | [] => []
  | c :: rest => c.toUpper :: rest.map Char.toLower

def fromRecord (templates : Table Text) (name : Text) (r : Label.Record) : Text :=
  Template.fill ((templates.get? name).getD "$number")
    [("number", r.number.text), ("label", r.label), ("type", categoryTitle r.category),
     ("name", r.name?.getD []), ("page", unknownPage)]

/-- The text of a reference, looked up among the labels (`_resolve`). A label that is not there,
    and a reference to a name where the label has none, are reported. -/
def lookedUp (templates : Table Text) (labels : Table Label.Record) (name label : Text)
    (position : Nat) : Noted Text :=
  match labels.get? label with
  | none => do
    Noted.report .undefinedReference
      ('\\' :: name ++ Text.braced label ++ " has no label") position
    return unresolved
  | some r =>
    if name = "nameref" ∧ (r.name?.getD []).isEmpty then do
      Noted.report .undefinedReference
        ("\\nameref" ++ Text.braced label ++ " points at a label without a name") position
      return unresolved
    else pure (fromRecord templates name r)

/-- The edit of a reference, unless it is escaped. -/
def replaceHit (mode : ReferenceMode) (templates : Table Text) (labels : Table Label.Record)
    (text : Text) (edits : List Edit) (h : Hit Command) : Noted (List Edit) :=
  if Scan.isEscaped text h.start then pure edits
  else do
    let label := Text.strip h.value.label
    let shown ← match mode with
      | .placeholder => pure (placeholder h.value.name label)
      | _ => lookedUp templates labels h.value.name label h.start
    return edits ++ [⟨h.start, h.stop, shown⟩]

/-- Replaces the references of a text by what they show (`rewrite_references`). -/
def replaceAll (mode : ReferenceMode) (templates : Table Text) (labels : Table Label.Record)
    (text : Text) : Noted Text :=
  match mode with
  | .ignore => pure text
  | _ => do
    Noted.edited text
      (← (Scan.hits command text).foldlM (replaceHit mode templates labels text) [])

end TexMark.Reference
