/-
  TexMark/Config/Fields.lean
  ==========================
  **Options by name.** Each option has a name and a JSON value. `Config.ofMembers` builds
  options from an object, which may leave out any of them, and `Config.members` writes all
  of them.

  These are `from_dict` and `to_dict` of `PipelineConfig`.
-/
import TexMark.Config
import TexMark.Json.Value

namespace TexMark

/-- The names of the options. -/
inductive ConfigField where
  | convertEnvironments
  | extraEnvironments
  | convertLegacyArrays
  | removeLabels
  | referenceMode
  | expandMacros
  | convertCitations
  | stripSizing
  | unifyProse
  | numberEquations
  | labelBase
  | citationTemplates
  | referenceTemplates
deriving DecidableEq, Repr

namespace ConfigField

/-- All options, in the order in which they are written. -/
def all : List ConfigField :=
  [convertEnvironments, extraEnvironments, convertLegacyArrays, removeLabels, referenceMode,
    expandMacros, convertCitations, stripSizing, unifyProse, numberEquations, labelBase,
    citationTemplates, referenceTemplates]

def name : ConfigField → Text
  | convertEnvironments => "convert_environments"
  | extraEnvironments => "extra_environments"
  | convertLegacyArrays => "convert_legacy_array_env"
  | removeLabels => "remove_labels"
  | referenceMode => "reference_mode"
  | expandMacros => "expand_macros"
  | convertCitations => "convert_citations"
  | stripSizing => "strip_sizing_commands"
  | unifyProse => "unify_prose_command"
  | numberEquations => "number_equations"
  | labelBase => "label_counter_base"
  | citationTemplates => "citation_templates"
  | referenceTemplates => "reference_templates"

def ofName? (t : Text) : Option ConfigField := all.find? fun f => f.name == t

end ConfigField

/-- Why an object gives no options. -/
inductive ConfigError where
  | unknownFields (names : List Text)
  | notNames (field : ConfigField)
  | notMode (field : ConfigField)
  | notInteger (field : ConfigField)
  | notObject (field : ConfigField)
  | notTruthValue (field : ConfigField)
deriving DecidableEq, Repr

def ConfigError.message : ConfigError → Text
  | unknownFields names => "Unknown config field(s): " ++ Text.join ", " names
  | notNames field => field.name ++ " must be a list of names"
  | notMode field => field.name ++ " must be one of: " ++ ReferenceMode.listed
  | notInteger field => field.name ++ " must be an integer"
  | notObject field => field.name ++ " must be an object"
  | notTruthValue field => field.name ++ " must be a boolean"

namespace Config

/-! ### Reading -/

def truthValue (field : ConfigField) (v : Json) : Except ConfigError Bool :=
  match v with
  | .bool b => .ok b
  | _ => .error (.notTruthValue field)

/-- The templates of an option: those given, over the default ones. -/
def templates (field : ConfigField) (defaults : Table Text) (v : Json) :
    Except ConfigError (Table Text) :=
  match v with
  | .obj members => .ok (Table.merge defaults (members.map fun e => (e.1, e.2.asText)))
  | _ => .error (.notObject field)

def set (config : Config) (field : ConfigField) (v : Json) : Except ConfigError Config :=
  match field with
  | .convertEnvironments =>
    (truthValue field v).map fun b => { config with convertEnvironments := b }
  | .extraEnvironments =>
    match v with
    | .arr items => .ok { config with extraEnvironments := Text.sortedSet (items.map Json.asText) }
    | _ => .error (.notNames field)
  | .convertLegacyArrays =>
    (truthValue field v).map fun b => { config with convertLegacyArrays := b }
  | .removeLabels => (truthValue field v).map fun b => { config with removeLabels := b }
  | .referenceMode =>
    match v.text?.bind ReferenceMode.ofName? with
    | some mode => .ok { config with referenceMode := mode }
    | none => .error (.notMode field)
  | .expandMacros => (truthValue field v).map fun b => { config with expandMacros := b }
  | .convertCitations => (truthValue field v).map fun b => { config with convertCitations := b }
  | .stripSizing => (truthValue field v).map fun b => { config with stripSizing := b }
  | .unifyProse => (truthValue field v).map fun b => { config with unifyProse := b }
  | .numberEquations => (truthValue field v).map fun b => { config with numberEquations := b }
  | .labelBase =>
    match v with
    | .int i => .ok { config with labelBase := i }
    | _ => .error (.notInteger field)
  | .citationTemplates =>
    (templates field defaultCitationTemplates v).map fun t => { config with citationTemplates := t }
  | .referenceTemplates =>
    (templates field defaultReferenceTemplates v).map
      fun t => { config with referenceTemplates := t }

/-- The options with the one of a name set; names of no option have been refused before. -/
def setNamed (config : Config) (e : Text × Json) : Except ConfigError Config :=
  match ConfigField.ofName? e.1 with
  | some field => config.set field e.2
  | none => .error (.unknownFields [e.1])

/-- The options that the members of an object give; those left out have their default
    (`from_dict`). All names are checked first, then the values, one after the other. -/
def ofMembers (members : Table Json) : Except ConfigError Config :=
  let unknown := members.names.filter fun name => (ConfigField.ofName? name).isNone
  if unknown.isEmpty then members.foldlM setNamed Config.default
  else .error (.unknownFields (Text.sortedSet unknown))

/-! ### Writing -/

def templatesJson (ts : Table Text) : Json := .obj (ts.map fun e => (e.1, .str e.2))

def get (config : Config) : ConfigField → Json
  | .convertEnvironments => .bool config.convertEnvironments
  | .extraEnvironments => .arr ((Text.sort config.extraEnvironments).map .str)
  | .convertLegacyArrays => .bool config.convertLegacyArrays
  | .removeLabels => .bool config.removeLabels
  | .referenceMode => .str config.referenceMode.name
  | .expandMacros => .bool config.expandMacros
  | .convertCitations => .bool config.convertCitations
  | .stripSizing => .bool config.stripSizing
  | .unifyProse => .bool config.unifyProse
  | .numberEquations => .bool config.numberEquations
  | .labelBase => .int config.labelBase
  | .citationTemplates => templatesJson config.citationTemplates
  | .referenceTemplates => templatesJson config.referenceTemplates

/-- All options with their names (`to_dict`). -/
def members (config : Config) : Table Json := ConfigField.all.map fun f => (f.name, config.get f)

/-- The options with the entries of their tables in the order of the names, which is an order
    of the table and not of the options. -/
def canonical (config : Config) : Config :=
  { config with
    extraEnvironments := Text.sortedSet config.extraEnvironments
    citationTemplates := config.citationTemplates.sorted
    referenceTemplates := config.referenceTemplates.sorted }

/-- Do the members of the options give the options back? -/
def readsBack (config : Config) : Bool :=
  match ofMembers config.members with
  | .ok again => again.canonical = config.canonical
  | .error _ => false

def json (config : Config) : Json := .obj config.members

end Config

end TexMark
