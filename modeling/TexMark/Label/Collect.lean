/-
  TexMark/Label/Collect.lean
  ==========================
  **Labels and their numbers.** Labels are counted by category, in the order of the document.
  A label inside a callout that shows a number takes that number, but is counted all the same.
  Of several labels with one name the last counts; the others are reported.

  `Label.collect` is `collect_labels`, `Label.removeAll` is `remove_labels`.
-/
import TexMark.Diagnostic
import TexMark.Label.Marker
import TexMark.Table

namespace TexMark.Label

/-- The number of a label: a count, or what the construct itself shows. -/
inductive Number where
  | counted (n : Int)
  | shown (t : Text)
deriving DecidableEq, Repr

def Number.text : Number → Text
  | .counted n => Text.ofInt n
  | .shown t => t

/-- A label with its number and what it names (`LabelRecord`). -/
structure Record where
  label : Text
  number : Number
  category : Text
  name? : Option Text
deriving DecidableEq, Repr

/-- Reads a `\label` command: its name, as it is written. -/
def command : Recognizer Text := fun _ rest =>
  (Markup.command? "label" rest).bind fun t => Markup.flatBraces? (Text.skipBlanks t)

/-- How far the numbering has come: how many labels of each category there were, and the
    labels by name. -/
structure Progress where
  counts : Table Nat
  labels : Table Record

/-- The number shown by the construct in front of a label. -/
def shownNumber? : Option Marker → Option Text
  | some (.callout _ _ number?) => number?
  | _ => none

def collectHit (base : Int) (text : Text) (s : Progress) (h : Hit Text) : Noted Progress :=
  if Scan.isEscaped text h.start then pure s
  else do
    let label := Text.strip h.value
    let marker := nearest? text h.start
    let subject := subjectOf marker
    let earlier := (s.counts.get? subject.category).getD 0
    let number := match shownNumber? marker with
      | some shown => .shown shown
      | none => .counted (base + earlier)
    if s.labels.has label then
      Noted.report .duplicateLabel
        ("Label " ++ Text.quoted label ++ " defined more than once; the later one wins") h.start
    return ⟨s.counts.put subject.category (earlier + 1),
      s.labels.put label ⟨label, number, subject.category, subject.name?⟩⟩

/-- The labels of a text (`collect_labels`). The first of each category gets the number `base`. -/
def collect (base : Int) (text : Text) : Noted (Table Record) := do
  let s ← (Scan.hits command text).foldlM (collectHit base text) ⟨[], []⟩
  return s.labels

/-- A label with the blanks behind it, to be taken out. -/
def erased : Recognizer Text := fun before rest =>
  (command before rest).map fun r => ([], r.2.dropWhile Text.isLineBlank)

/-- The text without its labels (`remove_labels`). -/
def removeAll (text : Text) : Text := Scan.replace erased text

end TexMark.Label
