/-
  TexMark/Citation.lean
  =====================
  **Citations.** A citation command has up to two notes in brackets and its keys in braces.
  Each key is written by the template of the command. A single note follows the keys; of two
  notes the first goes before them. A command without keys stays as it is written.

  `Citation.formatKeys` is `format_keys`, `Citation.format` is `format_citations`.
-/
import TexMark.Config
import TexMark.Diagnostic
import TexMark.Markup.Command
import TexMark.Markup.Group
import TexMark.Text.Placeholder

namespace TexMark.Citation

def commandNames : List Text :=
  ["citeauthor", "citetitle", "citeyear", "fullcite", "citep", "citet", "cite"]

/-- Reads a citation command, with its star if its name is complete behind it (`_CITE_RE`). -/
def command : Recognizer Text := fun _ rest =>
  commandNames.findSome? fun name => (Markup.command? name rest).bind fun afterName =>
    let (_, afterStar) := Markup.star afterName
    if Markup.nameEnds afterStar then some (name, afterStar)
    else if Markup.nameEnds afterName then some (name, afterName)
    else none

/-! ### Keys -/

def isKeyChar (c : Char) : Bool :=
  Text.isAsciiLetter c || ('0' ≤ c && c ≤ '9') || c == '_' || c == ':' || c == '-'

/-- The template of a command; that of `\cite` stands in for one that is missing. -/
def templateFor (templates : Table Text) (name : Text) : Text :=
  (templates.get? name <|> templates.get? "cite").getD "[cite: $key]"

/-- Writes one key. An empty key is reported and left out; one of other characters than
    keys have is reported and written. -/
def formatKey (template name : Text) (position : Nat) (key : Text) : Noted (Option Text) :=
  if key.isEmpty then do
    Noted.report .citationKeyError ("Empty key in \\" ++ name) position
    return none
  else do
    if !key.all isKeyChar then
      Noted.report .citationKeyError ("Malformed citation key " ++ Text.quoted key) position
    return some (Template.fill template [("key", key)])

/-- Writes the keys between commas (`format_keys`). -/
def formatKeys (templates : Table Text) (name keys : Text) (position : Nat) : Noted Text := do
  let parts ← ((Text.splitOn ',' keys).map Text.strip).mapM
    (formatKey (templateFor templates name) name position)
  return Text.join ", " (parts.filterMap id)

/-! ### Commands with their groups -/

def notes : (count : Nat) → Text → List Text × Text
  | 0, t => ([], t)
  | count + 1, t =>
    match Group.brackets? (Group.skipSpaces t) with
    | none => ([], t)
    | some (note, rest) =>
      let (more, after) := notes count rest
      (Text.strip note :: more, after)

/-- The note before the keys and the note behind them; empty where there is none. -/
def placed : List Text → Text × Text
  | [] => ([], [])
  | [post] => ([], post)
  | pre :: post :: _ => (pre, post)

def withNotes (pre post keys : Text) : Text :=
  (if pre.isEmpty then [] else pre ++ [' ']) ++ keys ++
    (if post.isEmpty then [] else ' ' :: '(' :: post ++ [')'])

/-- How far the replacement has come: where the last citation ended, and the edits so far. -/
structure Progress where
  cursor : Nat
  edits : List Edit

/-- Takes the next citation command, unless it is escaped or belongs to the last citation. -/
def formatHit (templates : Table Text) (text : Text) (s : Progress) (h : Hit Text) :
    Noted Progress :=
  if h.start < s.cursor ∨ Scan.isEscaped text h.start then pure s
  else
    let (found, afterNotes) := notes 2 (text.drop h.stop)
    match Group.braces? (Group.skipSpaces afterNotes) with
    | none => pure s
    | some (keys, after) => do
      let (pre, post) := placed found
      let shown ← formatKeys templates h.value keys h.start
      let stop := text.length - after.length
      return ⟨stop, s.edits ++ [⟨h.start, stop, withNotes pre post shown⟩]⟩

/-- Replaces the citations of a text by what they show (`format_citations`). -/
def format (templates : Table Text) (text : Text) : Noted Text := do
  let s ← (Scan.hits command text).foldlM (formatHit templates text) ⟨0, []⟩
  Noted.edited text s.edits

end TexMark.Citation
