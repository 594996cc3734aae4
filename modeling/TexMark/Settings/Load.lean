/-
  TexMark/Settings/Load.lean
  ==========================
  **Using settings.** A setting comes from the settings file, or from the environment of the
  process when the file does not have it. A value that cannot be read is passed over with a
  warning.

  `Settings.get?` is `get_key`, `Settings.loadConfig` is `load_pipeline_config`, and
  `Settings.loadService` is `_init_settings`.
-/
import TexMark.Settings.File
import TexMark.Settings.Key

namespace TexMark

/-- Where settings come from: the content of the settings file, if there is one, and the
    environment of the process. -/
structure Settings where
  file? : Option Text
  environment : Table Text
deriving DecidableEq, Repr

namespace Settings

/-- The keys of the settings file with their values. -/
def fileEntries (s : Settings) : Table Text :=
  match s.file? with
  | some content => SettingsFile.read content
  | none => []

/-- The value of a key (`get_key`). An empty value in the environment counts as none. -/
def get? (s : Settings) (name : Text) : Option Text :=
  match s.fileEntries.get? name with
  | some value => some value
  | none => (s.environment.get? name).filter fun value => !value.isEmpty

def nonempty? (s : Settings) (key : SettingKey) : Option Text :=
  (s.get? key.name).filter fun value => !value.isEmpty

/-! ### The service -/

def defaultPort : Int := 8770

/-- The TCP port of the service (`get_port`). A value that is none counts as not set. -/
def tcpPort (s : Settings) (default : Int) : Int :=
  match (s.get? SettingKey.tcpPort.name).map Integer.read with
  | some (.ok n) => if SettingKey.isPort n then n else default
  | _ => default

/-- The address of the service on a host (`get_service_url`). -/
def serviceUrl (s : Settings) (host : Text) : Text :=
  "http://" ++ host ++ ':' :: Text.ofInt (s.tcpPort defaultPort)

/-! ### Options -/

/-- Options that have been read from settings, with the warnings given. -/
structure Loaded where
  config : Config
  warnings : List Text

def ignoring (key : SettingKey) (raw : Text) : Text :=
  "Ignoring " ++ key.name ++ '=' :: Text.quoted raw

def withFlag (config : Config) (field : ConfigField) (b : Bool) : Config :=
  match config.set field (.bool b) with
  | .ok changed => changed
  | .error _ => config

def loadFlag (s : Settings) (l : Loaded) (field : ConfigField) : Loaded :=
  let key := SettingKey.flag field
  match s.get? key.name with
  | none => l
  | some raw => match SettingKey.truthValue? raw with
    | some b => { l with config := withFlag l.config field b }
    | none => { l with warnings := l.warnings ++ [ignoring key raw ++ " (expected a boolean)"] }

/-- Reads the names of further environments, separated by commas. -/
def loadExtras (s : Settings) (l : Loaded) : Loaded :=
  match s.get? SettingKey.extraEnvironments.name with
  | none => l
  | some raw =>
    let names := ((Text.splitOn ',' raw).map Text.strip).filter fun name => !name.isEmpty
    { l with config := { l.config with extraEnvironments := Text.sortedSet names } }

def loadMode (s : Settings) (l : Loaded) : Loaded :=
  let key := SettingKey.referenceMode
  match s.get? key.name with
  | none => l
  | some raw => match SettingKey.mode? raw with
    | some mode => { l with config := { l.config with referenceMode := mode } }
    | none => { l with warnings := l.warnings ++ [ignoring key raw] }

def loadBase (s : Settings) (l : Loaded) : Loaded :=
  let key := SettingKey.labelBase
  match s.get? key.name with
  | none => l
  | some raw => match Integer.read raw with
    | .ok n => { l with config := { l.config with labelBase := n } }
    | .error _ =>
      { l with warnings := l.warnings ++ [ignoring key raw ++ " (expected an integer)"] }

/-- The options that the settings give, over those of `base` (`load_pipeline_config`). -/
def loadConfig (s : Settings) (base : Config) : Loaded :=
  s.loadBase (s.loadMode (s.loadExtras (SettingKey.flagFields.foldl s.loadFlag ⟨base, []⟩)))

/-- The number of documents that the service converts side by side when none is set. -/
def defaultWorkers : Int := 4

/-- What the service starts with. -/
structure ServiceOptions where
  config : Config
  workers : Int
  warnings : List Text

/-- The options and the number of workers of the service (`_init_settings`). -/
def loadService (s : Settings) : ServiceOptions :=
  let loaded := s.loadConfig Config.default
  match s.nonempty? .workers with
  | none => ⟨loaded.config, defaultWorkers, loaded.warnings⟩
  | some raw => match Integer.read raw with
    | .ok n => ⟨loaded.config, max 1 n, loaded.warnings⟩
    | .error _ => ⟨loaded.config, defaultWorkers, loaded.warnings ++ [ignoring .workers raw]⟩

end Settings

end TexMark
