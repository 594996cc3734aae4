/-
  TexMark/Service/Log.lean
  ========================
  **The log of the service.** Each line of the log is a JSON object with a level and a
  message. Lines below the level that is asked for are left out. Here are also the lines that
  the service writes when it starts and stops.

  `Service.entry` is what `JsonFormatter` writes, `Service.session` the log of `main`.
-/
import TexMark.Json.Printer
import TexMark.Service.Request
import TexMark.Settings.Load

namespace TexMark.Service

/-! ### Levels -/

/-- The levels of log lines; the last one lets everything pass. -/
inductive Level where
  | critical
  | error
  | warning
  | info
  | debug
  | all
deriving DecidableEq, Repr

namespace Level

def rank : Level → Nat
  | critical => 50
  | error => 40
  | warning => 30
  | info => 20
  | debug => 10
  | all => 0

def name : Level → Text
  | critical => "CRITICAL"
  | error => "ERROR"
  | warning => "WARNING"
  | info => "INFO"
  | debug => "DEBUG"
  | all => "NOTSET"

/-- The words for levels, two of which have a second word. -/
def words : Table Level :=
  [("CRITICAL", critical), ("FATAL", critical), ("ERROR", error), ("WARNING", warning),
    ("WARN", warning), ("INFO", info), ("DEBUG", debug), ("NOTSET", all)]

/-- The level of a word, under its own name; other words stay as they are. -/
def nameOf (word : Text) : Text := ((words.get? word).map name).getD word

end Level

/-- Why a setting for the level is refused: its word belongs to something that is no level. -/
inductive LevelError where
  /-- The word of the form of lines that are no objects. -/
  | lineForm
  /-- The word of the table of such forms, by the sign of their placeholders. -/
  | lineForms
deriving DecidableEq, Repr

namespace LevelError

/-- A line that is no object: its level, its source and its message, each a placeholder that
    `mark` makes of a name. -/
def lineOf (mark : Text → Text) : Text :=
  Text.join [':'] [mark "levelname", mark "name", mark "message"]

/-- The form of lines with placeholders in percent signs. -/
def percentLine : Text := lineOf fun n => "%(" ++ n ++ ")s"

/-- An entry of the table of forms: the sign, the kind of the placeholders, and the form. -/
def shownForm (sign : Char) (kind form : Text) : Text :=
  Text.quoted [sign] ++ ": (<class 'logging." ++ kind ++ "'>, " ++ Text.quoted form ++ ")"

def message : LevelError → Text
  | lineForm => "Unknown level: " ++ Text.quoted percentLine
  | lineForms => "Level not an integer or a valid string: " ++ Text.braced (Text.join ", "
      [shownForm '%' "PercentStyle" percentLine,
        shownForm (Char.ofNat 0x7B) "StrFormatStyle" (lineOf Text.braced),
        shownForm '$' "StringTemplateStyle" (lineOf fun n => '$' :: Text.braced n)])

def words : Table LevelError := [("BASIC_FORMAT", lineForm), ("_STYLES", lineForms)]

end LevelError

/-- The level that a setting asks for, in capitals or not; an unknown word asks for `info`. -/
def Level.ofSetting (value? : Option Text) : Except LevelError Level :=
  match value?.map Text.upper with
  | none => .ok .info
  | some word => match LevelError.words.get? word with
    | some e => .error e
    | none => .ok ((Level.words.get? word).getD .info)

/-! ### Lines -/

/-- A line as an object (`JsonFormatter`). -/
def entry (level message : Text) : Json :=
  .obj [("level", .str level), ("service", .str name), ("msg", .str message)]

/-! ### Start and end -/

/-- An object with its members in the order of their names, those of objects inside it as
    well. -/
def sortedJson : Json → Json
  | .obj members => .obj (Table.sorted (members.map fun e =>
    (e.1, match e.2 with
      | .obj inner => .obj (Table.sorted inner)
      | v => v)))
  | v => v

/-- The line that tells the options of the service. -/
def defaultsLine (o : Settings.ServiceOptions) : Text :=
  "Pipeline defaults: " ++ Json.print (sortedJson o.config.json) ++ " (batch workers=" ++
    Text.ofInt o.workers ++ ")"

/-- A service from start to end: the TCP port it listened on, the level of its log, and the lines
    of the log. -/
structure Session where
  tcpPort : Int
  level : Level
  log : List Json

/-- A line of a level, if the log takes lines of that level. -/
def line (threshold level : Level) (message : Text) : List Json :=
  if threshold.rank ≤ level.rank then [entry level.name message] else []

def session (settings : Settings) : Except LevelError Session := do
  let level ← Level.ofSetting (settings.nonempty? .logLevel)
  let options := settings.loadService
  let tcpPort := settings.tcpPort Settings.defaultPort
  return ⟨tcpPort, level,
    options.warnings.flatMap (line level .warning) ++
    line level .info (defaultsLine options) ++
    line level .info ("texmd service starting on port " ++ Text.ofInt tcpPort) ++
    line level .info "texmd service stopped"⟩

end TexMark.Service
