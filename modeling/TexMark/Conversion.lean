/-
  TexMark/Conversion.lean
  =======================
  **Conversions.** A document goes through a sequence of phases, each of which gets the text
  that the one before it left. What a phase learns of the document is kept in a state for the
  phases behind it. A phase that meets a fault is reported and passed over, so that every
  conversion has a result.

  `Conversion.runPhase` is `_run_phase`, `Conversion.transform` is `transform`, and
  `Phase.apply` gathers the `apply` of `MacroPhase`, `EnvironmentPhase`, `CalloutPhase`,
  `ReferencePhase`, `CitationPhase`, `DelimiterPhase` and `CleanupPhase`.
-/
import TexMark.Citation
import TexMark.Config
import TexMark.Definition
import TexMark.Environment.Resolve
import TexMark.Layout
import TexMark.Reference
import TexMark.Sizing

namespace TexMark

/-! ### Phases -/

/-- The phases of conversions. -/
inductive Phase where
  | macros
  | environments
  | references
  | citations
  | delimiters
  | cleanup
  | callouts
deriving DecidableEq, Repr

def Phase.name : Phase → Text
  | macros => "macros"
  | environments => "environments"
  | references => "references"
  | citations => "citations"
  | delimiters => "delimiters"
  | cleanup => "cleanup"
  | callouts => "callouts"

/-- The phases of a direction, in their order (`FORWARD_PHASES` and `REVERSE_PHASES`). -/
def Direction.phases : Direction → List Phase
  | forward => [.macros, .environments, .references, .citations, .delimiters, .cleanup]
  | reverse => [.macros, .callouts, .delimiters]

def Phase.enabled (phase : Phase) (config : Config) : Bool :=
  match phase with
  | macros => config.expandMacros
  | environments => config.convertEnvironments
  | callouts => config.convertEnvironments
  | citations => config.convertCitations
  | _ => true

/-- What a conversion goes by. -/
structure Setup where
  config : Config
  direction : Direction
  converters : Environment.Converters

def Setup.ofConfig (config : Config) (direction : Direction) : Setup :=
  ⟨config, direction, Environment.defaultConverters⟩

/-- What is known of a document (`ConversionContext`). -/
structure State where
  macros : Table Macro
  labels : Table Label.Record
  register : TheoremRegister
  equations : Nat

def State.empty : State := ⟨[], [], .empty, 0⟩

namespace Phase

/-- Takes the definitions out of a text and expands the macros, first those of the document and
    then those that are built in (`MacroPhase`). -/
def applyMacros (text : Text) (state : State) : Noted (Text × State) := do
  let (body, defined) ← Definition.collect text
  let macros := state.macros.merge defined
  let expanded ← Macro.expandAll macros.values body
  return (← Macro.expandAll Macro.builtin expanded, { state with macros := macros })

/-- The settings of the conversion of environments. -/
def environmentSettings (setup : Setup) : Environment.Settings where
  converters := setup.converters
  extraNames := setup.config.extraEnvironments
  convertLegacy := setup.config.convertLegacyArrays
  numberEquations := setup.config.numberEquations

/-- Converts the environments, with the theorems and equations counted so far
    (`EnvironmentPhase`). -/
def applyEnvironments (setup : Setup) (text : Text) (state : State) : Noted (Text × State) := do
  let r ← Environment.resolve (environmentSettings setup) state.register state.equations text
  return (r.text, { state with register := r.register, equations := r.equations })

/-- Numbers the labels, replaces the references, and takes the labels out if that is wanted
    (`ReferencePhase`). -/
def applyReferences (config : Config) (text : Text) (state : State) : Noted (Text × State) := do
  let found ← if config.referenceMode = .resolve then Label.collect config.labelBase text
    else pure []
  let labels := state.labels.merge found
  let replaced ← Reference.replaceAll config.referenceMode config.referenceTemplates labels text
  let result := if config.removeLabels then Label.removeAll replaced else replaced
  return (result, { state with labels := labels })

def delimiterRules : Direction → List DelimiterRule
  | .forward => Delimiter.forwardRules
  | .reverse => Delimiter.reverseRules

/-- Drops sizing commands and unifies prose as far as the options ask for it, and tidies the lines
    (`CleanupPhase`). -/
def cleanUp (config : Config) (text : Text) : Noted Text := do
  let sized ← if config.stripSizing then Sizing.stripAll text else pure text
  return Layout.tidy (if config.unifyProse then Layout.unifyProse sized else sized)

def apply (phase : Phase) (setup : Setup) (text : Text) (state : State) : Noted (Text × State) :=
  match phase with
  | macros => applyMacros text state
  | environments => applyEnvironments setup text state
  | references => applyReferences setup.config text state
  | citations => do return (← Citation.format setup.config.citationTemplates text, state)
  | delimiters => do return (← Delimiter.normalize (delimiterRules setup.direction) text, state)
  | cleanup => do return (← cleanUp setup.config text, state)
  | callouts => pure (Callout.toEnvironments text, state)

def failure (phase : Phase) (fault : Fault) : Diagnostic :=
  ⟨.phaseFailure, phase.name ++ ": ValueError: " ++ fault.message, 0⟩

end Phase

/-! ### Running phases -/

/-- One phase of a conversion: whether it ran, the text behind it, and what it reported. -/
structure Step where
  phase : Phase
  enabled : Bool
  text : Text
  notes : List Diagnostic

namespace Conversion

/-- Runs one phase (`_run_phase`). With a fault the text and the state stay as they were. -/
def runPhase (setup : Setup) (phase : Phase) (text : Text) (state : State) : Step × State :=
  if !phase.enabled setup.config then (⟨phase, false, text, []⟩, state)
  else
    let outcome := phase.apply setup text state
    match outcome.result with
    | .ok (text', state') => (⟨phase, true, text', outcome.notes⟩, state')
    | .error fault => (⟨phase, true, text, outcome.notes ++ [phase.failure fault]⟩, state)

def runPhases (setup : Setup) : List Phase → Text → State → List Step × State
  | [], _, state => ([], state)
  | phase :: phases, text, state =>
    let (step, state') := runPhase setup phase text state
    let (steps, final) := runPhases setup phases step.text state'
    (step :: steps, final)

/-- The steps of the conversion of a document, and what is known of it in the end. -/
def trace (setup : Setup) (text : Text) : List Step × State :=
  runPhases setup setup.direction.phases text .empty

/-- A converted document with its diagnostics. -/
structure Result where
  text : Text
  diagnostics : List Diagnostic
deriving DecidableEq, Repr

/-- The text behind the last phase, and what all phases reported (`transform`). -/
def transform (setup : Setup) (text : Text) : Result :=
  let steps := (trace setup text).1
  ⟨(steps.getLast?.map (·.text)).getD text, steps.flatMap (·.notes)⟩

/-! ### Several documents -/

/-- The results in the order of their documents. Each result comes with the place of its
    document, in whatever order the conversions were done. -/
def arrange (count : Nat) (finished : List (Nat × Result)) : List Result :=
  (List.range count).filterMap fun place =>
    (finished.find? fun e => e.1 == place).map (·.2)

/-- Converts the documents at some places, one after the other. -/
def transformAt (setup : Setup) (texts : List Text) (places : List Nat) : List (Nat × Result) :=
  places.filterMap fun place => (texts[place]?).map fun text => (place, transform setup text)

/-- Converts several documents, each on its own, when they are done in the order of
    `places`. -/
def transformInOrder (setup : Setup) (places : List Nat) (texts : List Text) : List Result :=
  arrange texts.length (transformAt setup texts places)

/-- The results of several documents, in the order of the documents (`transform_many`). -/
def transformAll (setup : Setup) (texts : List Text) : List Result :=
  transformInOrder setup (List.range texts.length) texts

end Conversion

end TexMark
