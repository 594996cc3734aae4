/-
  TexMark/Command/Run.lean
  ========================
  **Running a command.** A command reads and changes a disk. What it does is planned as a
  whole, one thing after the other, and what it does behind a question depends on the answer.
  A file is written only with leave: on request, after a yes, or when there is nothing to report
  and nothing to overwrite.

  A plan is carried out on a host. Its console may refuse to show a line, because it takes what
  stands in brackets there for style marks of its own; it may be unable to ask; and its encoding
  may have no bytes for a text. Each of these ends a run where it happens, with the disk as it is
  by then.

  `Command.plan` is `main`, which dispatches to `_convert`, `_check` and `_config`.
-/
import TexMark.Command.Arguments
import TexMark.Conversion
import TexMark.Disk
import TexMark.Settings.Load
import TexMark.Sheet

namespace TexMark.Command

/-! ### Outcomes -/

/-- What stops a command for good. -/
inductive Crash where
  | file (fault : FileFault)
  | path (error : Path.NoName)
  /-- The console complains. -/
  | console (complaint : Text)
deriving DecidableEq, Repr

def Crash.message : Crash → Text
  | file fault => fault.message
  | path error => error.message
  | console complaint => complaint

/-- How a command ends. -/
inductive Ending where
  | exit (code : Nat)
  | crash (cause : Crash)
deriving DecidableEq, Repr

/-- A command that has run: what it showed and asked, the warnings about settings, the disk
    it left, and how it ended. -/
structure Outcome where
  shown : List Shown
  questions : List Text
  warnings : List Text
  disk : Disk
  ending : Ending

/-! ### Plans -/

/-- What a command does, one thing after the other. -/
inductive Plan where
  | finish (ending : Ending)
  /-- Warns about settings. -/
  | warn (warnings : List Text) (rest : Plan)
  /-- Shows something on the console. -/
  | tell (s : Shown) (rest : Plan)
  /-- Asks a question. The answer is yes, no, or none at all. -/
  | ask (question : Text) (rest : Option Bool → Plan)
  /-- Writes a file. -/
  | write (path : Path) (t : Text) (rest : Plan)

/-- What a command runs on. Where there is a complaint, the command crashes. -/
structure Host where
  /-- The complaint about something that the console cannot show. -/
  unshown? : Shown → Option Text
  /-- The complaint about a question that cannot be asked. -/
  unasked? : Text → Option Text
  /-- The complaint about a text that has no bytes. -/
  unencoded? : Text → Option Text

/-- Carries a plan out, with the answer that is given if it asks. -/
def Plan.run (host : Host) (answer : Option Bool) (disk : Disk) : Plan → Outcome
  | finish ending => ⟨[], [], [], disk, ending⟩
  | warn warnings rest =>
    let later := rest.run host answer disk
    { later with warnings := warnings ++ later.warnings }
  | tell s rest =>
    match host.unshown? s with
    | some complaint => ⟨[], [], [], disk, .crash (.console complaint)⟩
    | none =>
      let later := rest.run host answer disk
      { later with shown := s :: later.shown }
  | ask question rest =>
    match host.unasked? question with
    | some complaint => ⟨[], [], [], disk, .crash (.console complaint)⟩
    | none =>
      let later := (rest answer).run host answer disk
      { later with questions := question :: later.questions }
  | write path t rest =>
    match disk.save host.unencoded? path t with
    | ⟨left, some fault⟩ => ⟨[], [], [], left, .crash (.file fault)⟩
    | ⟨changed, none⟩ => rest.run host answer changed

/-- Shows something and ends. -/
def Plan.close (s : Shown) (code : Nat) : Plan := .tell s (.finish (.exit code))

/-- A command crashes before it has done anything. -/
def Plan.crash (cause : Crash) : Plan := .finish (.crash cause)

def red (t : Text) : Shown := .line ("[red]" ++ t ++ "[/]")

/-! ### Settings -/

def settingsPath : Path := ⟨0, [".env"]⟩

/-- The content of the settings file, if it is there. -/
def settingsContent (disk : Disk) : Except FileFault (Option Text) :=
  if disk.exists? settingsPath then (disk.readText settingsPath).map some else .ok none

def settings (disk : Disk) (environment : Table Text) : Except FileFault Settings :=
  (settingsContent disk).map fun content => ⟨content, environment⟩

/-- Puts a value under a key of the settings file, where the file that comes of it has bytes. -/
def storeSetting (disk : Disk) (key value : Text) : Except FileFault Disk := do
  disk.writeText settingsPath (SettingsFile.write (← settingsContent disk) key value)

/-! ### Subcommands -/

/-- The suffix of the documents that a direction produces (`_TARGET_SUFFIX`). -/
def targetSuffix : Direction → Text
  | .forward => ".md"
  | .reverse => ".tex"

/-- Where the result of a conversion goes by default: beside its source (`default_output`). -/
def defaultOutput (source : Path) (direction : Direction) : Except Path.NoName Path :=
  source.sibling (targetSuffix direction)

def unreadable (operand : Text) (fault : FileFault) : Plan :=
  match fault with
  | .nullInPath => .crash (.file fault)
  | _ => .close (red ("Cannot read " ++ operand ++ ": " ++ fault.message)) 1

/-- What is shown behind the conversion that wrote a file. -/
def wrote (output : Path) : Shown := .line ("  [green]ok[/] wrote " ++ output.text)

def writeResult (output : Path) (result : Text) : Plan :=
  .write output result (.close (wrote output) 0)

/-- Goes on after the question whether a file may be written. -/
def writeIf (output : Path) (result : Text) : Option Bool → Plan
  | none => .close (.line "[bold red]Cancelled.[/]") 1
  | some false => .close (.line ("  [yellow]skip[/] " ++ output.text ++ " — not written")) 0
  | some true => writeResult output result

def question (output : Path) (diagnostics : Nat) : Text :=
  let reason : Text :=
    if diagnostics = 0 then "file exists" else Text.ofNat diagnostics ++ " diagnostic(s)"
  "Write " ++ output.text ++ " (" ++ reason ++ ")?"

/-- The output of a conversion: what was asked for, unless that is empty. -/
def outputOf (operand : Text) (a : Arguments) : Except Path.NoName Path :=
  match a.output?.filter fun o => !o.isEmpty with
  | some o => .ok (Path.ofText o)
  | none => defaultOutput (Path.ofText operand) a.direction

/-- Writes a result, or asks before if there is something to report or to overwrite. -/
def deliver (disk : Disk) (a : Arguments) (output : Path) (result : Conversion.Result) : Plan :=
  if !a.yes && (!result.diagnostics.isEmpty || disk.exists? output) then
    .ask (question output result.diagnostics.length) (writeIf output result.text)
  else writeResult output result.text

/-- Converts a document and writes the result, with leave (`_convert`). -/
def convert (disk : Disk) (environment : Table Text) (operand : Text) (a : Arguments) : Plan :=
  match disk.readText (Path.ofText operand), settings disk environment with
  | .error fault, _ => unreadable operand fault
  | .ok _, .error fault => .crash (.file fault)
  | .ok source, .ok settings =>
    let loaded := settings.loadConfig Config.default
    let result := Conversion.transform (.ofConfig loaded.config a.direction) source
    .warn loaded.warnings (.tell (Sheet.ofDiagnostics source "Diagnostics" result.diagnostics)
      (match outputOf operand a with
        | .error e => .crash (.path e)
        | .ok output => deliver disk a output result))

/-- Converts a document and shows what is reported of it (`_check`). -/
def check (disk : Disk) (environment : Table Text) (operand : Text) (a : Arguments) : Plan :=
  match disk.readText (Path.ofText operand), settings disk environment with
  | .error fault, _ => unreadable operand fault
  | .ok _, .error fault => .crash (.file fault)
  | .ok source, .ok settings =>
    let loaded := settings.loadConfig Config.default
    let result := Conversion.transform (.ofConfig loaded.config a.direction) source
    .warn loaded.warnings
      (.close (Sheet.ofDiagnostics source ("Diagnostics: " ++ operand) result.diagnostics)
        (if result.diagnostics.isEmpty then 0 else 2))

def showConfig (disk : Disk) (environment : Table Text) : Plan :=
  match settings disk environment with
  | .error fault => .crash (.file fault)
  | .ok settings =>
    let loaded := settings.loadConfig Config.default
    .warn loaded.warnings (.close (Sheet.ofConfig loaded.config settingsPath.text
      (settings.serviceUrl "localhost")) 0)

/-- What is shown behind a setting that was stored. -/
def stored (name value : Text) : Shown :=
  .line ("  [green]ok[/] " ++ name ++ '=' :: value ++ " saved to " ++ settingsPath.text)

/-- Stores a setting, if its value is one of its key. -/
def setSetting (disk : Disk) (name value : Text) : Plan :=
  match SettingKey.refusal? name value with
  | some refusal => .close (red refusal.message) 1
  | none => match settingsContent disk with
    | .error fault => .crash (.file fault)
    | .ok content? =>
      .write settingsPath (SettingsFile.write content? name value) (.close (stored name value) 0)

def getSetting (disk : Disk) (environment : Table Text) (name : Text) : Plan :=
  match settings disk environment with
  | .error fault => .crash (.file fault)
  | .ok settings => match settings.get? name with
    | none => .close (.line ("  [dim]" ++ name ++ " is not set[/]")) 1
    | some value => .close (.line (name ++ '=' :: value)) 0

/-- Shows the options, or shows or changes one setting (`_config`). -/
def config (disk : Disk) (environment : Table Text) (operands : List Text) : Plan :=
  match operands with
  | [] => showConfig disk environment
  | [action, name, value] =>
    if action = "set".toList then setSetting disk (Text.upper name) value else misuse
  | [action, name] =>
    if action = "get".toList then getSetting disk environment (Text.upper name) else misuse
  | _ => misuse
where
  misuse : Plan := .close (red "Usage: texmd config (set KEY VALUE | get KEY)") 1

/-! ### Commands -/

/-- What a call for help shows (`_usage`). -/
def usage : List Shown :=
  [.line "Usage: texmd SUBCOMMAND [ARGS]", .line [], .line "Subcommands:"] ++
    Subcommand.all.map fun s => .line ("  " ++ Text.padEnd 10 s.name ++ ' ' :: s.summary)

def help : Plan := usage.foldr .tell (.finish (.exit 0))

def dispatch (disk : Disk) (environment : Table Text) (s : Subcommand) (a : Arguments) : Plan :=
  match s, a.operands with
  | .config, operands => config disk environment operands
  | .convert, [operand] => convert disk environment operand a
  | .check, [operand] => check disk environment operand a
  | _, _ => .close (red (s.name ++ " takes exactly one input file")) 1

/-- What a command line does (`main`). -/
def plan (disk : Disk) (environment : Table Text) (args : List Text) : Plan :=
  match args with
  | [] => help
  | first :: rest =>
    if first = "-h".toList ∨ first = "--help".toList then help
    else match Subcommand.ofName? first with
      | none =>
        let available := Text.join ", " (Subcommand.all.map Subcommand.name)
        .close (.line ("[red]Unknown subcommand: " ++ first ++ "[/]  (available: " ++
          available ++ ")")) 1
      | some s => match Arguments.read rest with
        | .error e => .close (red e.message) 1
        | .ok a => dispatch disk environment s a

/-- What a run of the command line comes to. -/
def run (host : Host) (disk : Disk) (environment : Table Text) (args : List Text)
    (answer : Option Bool) : Outcome := (plan disk environment args).run host answer disk

end TexMark.Command
