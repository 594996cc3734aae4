/-
  TexMark/Settings/Key.lean
  =========================
  **Keys of settings and their values.** Some keys set options of a conversion, the others
  belong to the service. `SettingKey.refusal?` tells why a value cannot be stored.

  `SettingKey.refusal?` is `validate_setting`, `SettingKey.knownNames` is `known_keys`.
-/
import TexMark.Config.Fields
import TexMark.Text.Integer
import TexMark.Text.UpperCase

namespace TexMark

/-- The keys of settings. -/
inductive SettingKey where
  /-- An option that is on or off. -/
  | flag (field : ConfigField)
  | extraEnvironments
  | referenceMode
  | labelBase
  | tcpPort
  | workers
  | logLevel
deriving DecidableEq, Repr

namespace SettingKey

/-- The options that are on or off and have a key, in the order in which they are read. -/
def flagFields : List ConfigField :=
  [.convertEnvironments, .convertLegacyArrays, .removeLabels, .expandMacros, .convertCitations,
    .stripSizing, .unifyProse, .numberEquations]

def all : List SettingKey :=
  flagFields.map flag ++ [extraEnvironments, referenceMode, labelBase, tcpPort, workers, logLevel]

def flagName : ConfigField → Text
  | .convertEnvironments => "TEXMD_CONVERT_ENVIRONMENTS"
  | .convertLegacyArrays => "TEXMD_CONVERT_EQNARRAY"
  | .removeLabels => "TEXMD_REMOVE_LABELS"
  | .expandMacros => "TEXMD_EXPAND_MACROS"
  | .convertCitations => "TEXMD_CONVERT_CITATIONS"
  | .stripSizing => "TEXMD_STRIP_SIZING"
  | .unifyProse => "TEXMD_UNIFY_PROSE"
  | .numberEquations => "TEXMD_NUMBER_EQUATIONS"
  | _ => []

def name : SettingKey → Text
  | flag field => flagName field
  | extraEnvironments => "TEXMD_EXTRA_ENVIRONMENTS"
  | referenceMode => "TEXMD_REFERENCE_MODE"
  | labelBase => "TEXMD_LABEL_BASE"
  | tcpPort => "TEXMD_PORT"
  | workers => "TEXMD_WORKERS"
  | logLevel => "TEXMD_LOG_LEVEL"

def ofName? (t : Text) : Option SettingKey := all.find? fun k => k.name == t

/-- The names of all keys, in the order of their code points (`known_keys`). -/
def knownNames : List Text := Text.sort (all.map name)

/-! ### Values -/

def onWords : List Text := ["1", "true", "yes", "on"]

def offWords : List Text := ["0", "false", "no", "off"]

/-- A text with its ASCII letters small, as the words of values are compared. -/
def small (t : Text) : Text := t.map Char.toLower

/-- The truth value of a word, whatever the case of its letters (`_parse_bool`). -/
def truthValue? (raw : Text) : Option Bool :=
  let word := small (Text.strip raw)
  if onWords.contains word then some true
  else if offWords.contains word then some false
  else none

/-- The mode of a word, whatever the case of its letters. -/
def mode? (raw : Text) : Option ReferenceMode := ReferenceMode.ofName? (small (Text.strip raw))

/-- The levels of log lines that may be asked for. -/
def levelNames : List Text := ["CRITICAL", "DEBUG", "ERROR", "INFO", "WARNING"]

def maxPort : Int := 65535

def isPort (n : Int) : Bool := 1 ≤ n && n ≤ maxPort

/-! ### Refusals -/

/-- Why a value cannot be stored. -/
inductive Refusal where
  | unknownKey (name : Text)
  | notTruthValue (key : SettingKey)
  | notMode (key : SettingKey)
  | notLevel (key : SettingKey)
  | notInteger (key : SettingKey)
  | notPort (key : SettingKey)
  | notPositive (key : SettingKey)
deriving DecidableEq, Repr

def Refusal.message : Refusal → Text
  | unknownKey name =>
    "Unknown setting " ++ name ++ " (known: " ++ Text.join ", " knownNames ++ ")"
  | notTruthValue key => key.name ++ " expects a boolean (true/false)"
  | notMode key => key.name ++ " must be one of: " ++ ReferenceMode.listed
  | notLevel key => key.name ++ " must be one of: " ++ Text.join ", " levelNames
  | notInteger key => key.name ++ " expects an integer"
  | notPort key => key.name ++ " must be between 1 and 65535"
  | notPositive key => key.name ++ " must be at least 1"

/-- Refuses what is no integer, and integers outside a class. -/
def integerRefusal? (key : SettingKey) (valid : Int → Bool) (refusal : Refusal) (raw : Text) :
    Option Refusal :=
  match Integer.read raw with
  | .error _ => some (.notInteger key)
  | .ok n => if valid n then none else some refusal

/-- Why a value cannot be stored under a key, if it cannot. -/
def valueRefusal? (key : SettingKey) (value : Text) : Option Refusal :=
  let raw := Text.strip value
  match key with
  | flag _ => if (truthValue? raw).isSome then none else some (.notTruthValue key)
  | referenceMode => if (mode? raw).isSome then none else some (.notMode key)
  | logLevel => if levelNames.contains (Text.upper raw) then none else some (.notLevel key)
  | labelBase => integerRefusal? key (fun _ => true) (.notInteger key) raw
  | tcpPort => integerRefusal? key isPort (.notPort key) raw
  | workers => integerRefusal? key (fun n => 1 ≤ n) (.notPositive key) raw
  | extraEnvironments => none

/-- Why a value cannot be stored under a name, if it cannot (`validate_setting`). -/
def refusal? (name value : Text) : Option Refusal :=
  match ofName? name with
  | none => some (.unknownKey name)
  | some key => key.valueRefusal? value

end SettingKey

end TexMark
