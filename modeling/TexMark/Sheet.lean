/-
  TexMark/Sheet.lean
  ==================
  **What a command shows.** Lines with style marks, and sheets: tables with a title, a
  caption, and named columns. Here are the sheets of diagnostics and of options.

  `Sheet.ofDiagnostics` is `print_diagnostics`, `Sheet.ofConfig` is `print_config`.
-/
import TexMark.Config.Fields
import TexMark.Diagnostic
import TexMark.Scan

namespace TexMark

/-- A table as it is shown. -/
structure Sheet where
  title : Text
  caption? : Option Text
  columns : List Text
  rows : List (List Text)
deriving DecidableEq, Repr

/-- A piece of output. -/
inductive Shown where
  | line (t : Text)
  | sheet (s : Sheet)
deriving DecidableEq, Repr

namespace Sheet

/-! ### Diagnostics -/

/-- The style mark of a kind: red for those that leave the structure of the document in doubt
    (`_KIND_STYLE`). -/
def style : DiagnosticKind → Text
  | .phaseFailure => "[red]"
  | .environmentMismatch => "[red]"
  | .unmatchedEnvironment => "[red]"
  | .delimiterMismatch => "[red]"
  | _ => "[yellow]"

/-- The row of a diagnostic. Without a source there is no line to name. -/
def diagnosticRow (source : Text) (index : Nat) (d : Diagnostic) : List Text :=
  [Text.ofNat (index + 1), style d.kind ++ d.kind.name ++ "[/]",
    if source.isEmpty then ['-'] else Text.ofNat (Scan.lineNumber source d.position), d.message]

/-- The diagnostics as they are shown: a table, or one line if there are none
    (`print_diagnostics`). -/
def ofDiagnostics (source title : Text) (ds : List Diagnostic) : Shown :=
  if ds.isEmpty then .line "  [green]ok[/] no diagnostics"
  else .sheet ⟨title, some (Text.ofNat ds.length ++ " diagnostic(s)"),
    ["#", "Kind", "~Line", "Message"], ds.mapIdx (diagnosticRow source)⟩

/-! ### Options -/

def cell : Json → Text
  | .obj members => Text.join ", " (members.map fun e => e.1 ++ '=' :: e.2.asText)
  | .arr items =>
    let listed := Text.join ", " (items.map Json.asText)
    if listed.isEmpty then ['-'] else listed
  | v => v.asText

/-- Options as they are shown, with the place of the settings file and the address of the service
    if there are any (`print_config`). -/
def ofConfig (config : Config) (settingsFile serviceUrl : Text) : Shown :=
  let notes : List Text :=
    (if settingsFile.isEmpty then [] else ["Settings file: " ++ settingsFile]) ++
    (if serviceUrl.isEmpty then [] else ["Service: " ++ serviceUrl])
  .sheet ⟨"Pipeline Configuration",
    if notes.isEmpty then none else some (Text.join "  " notes),
    ["Field", "Value"], config.members.map fun e => [e.1, cell e.2]⟩

end Sheet

end TexMark
