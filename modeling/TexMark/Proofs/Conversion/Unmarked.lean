/-
  TexMark/Proofs/Conversion/Unmarked.lean
  =======================================
  **Documents without markup.**  All that a conversion looks for begins with one of very few
  characters: with a backslash, and in Markdown with a dollar or a quote marker as well.  A text
  without these characters holds nothing to be converted:

    * `Scan.BeginsWith` — the characters that the constructs of a recogniser begin with; where
      they are missing there are no hits (`hits_eq_nil`);
    * `Phase.Leaves` — a phase leaves a text behind and reports nothing, whatever is known of the
      document;
    * `transform_of_unmarked` — whole conversions of such texts.
-/
import TexMark.Conversion
import TexMark.Proofs.Delimiter.Cut
import TexMark.Proofs.Theorem.RoundTrip

namespace TexMark

open Noted

/-! ### Recognisers and their first characters -/

namespace Scan

variable {α : Type} {read : Recognizer α} {first : Char → Prop} {text : Text}

/-- Where a recogniser finds its construct, the text **begins with** one of some characters. -/
def BeginsWith (first : Char → Prop) (read : Recognizer α) : Prop :=
  ∀ before rest value after, read before rest = some (value, after) →
    ∃ c t, rest = c :: t ∧ first c

theorem BeginsWith.read_eq_none (hread : BeginsWith first read) {c : Char} (hc : ¬ first c)
    {before t : Text} : read before (c :: t) = none := by
  cases hvalue : read before (c :: t) with
  | none => rfl
  | some found =>
    obtain ⟨d, _, hd, hfirst⟩ := hread _ _ _ _ hvalue
    cases hd
    exact absurd hfirst hc

/-- A text without these characters has no hits. -/
theorem hits_eq_nil (hread : BeginsWith first read) (ht : ∀ c ∈ text, ¬ first c) :
    hits read text = [] := by
  rw [List.eq_nil_iff_forall_not_mem]
  intro h hmem
  obtain ⟨passed, rest, after, rfl, -, hvalue, -⟩ := read_of_mem_hitsFrom hmem
  obtain ⟨c, t, rfl, hc⟩ := hread _ _ _ _ hvalue
  exact ht c (List.mem_append_right passed List.mem_cons_self) hc

/-- A scan passes over a piece of text without these characters. -/
theorem hitsFrom_pass (hread : BeginsWith first read) {u : Text} (hu : ∀ c ∈ u, ¬ first c)
    (pos : Nat) (before t : Text) :
    hitsFrom read pos before 0 (u ++ t) =
      hitsFrom read (pos + u.length) (u.reverse ++ before) 0 t := by
  induction u generalizing pos before with
  | nil => rfl
  | cons c u ih =>
    have hnone : read before (c :: (u ++ t)) = none := hread.read_eq_none (hu c List.mem_cons_self)
    rw [List.cons_append, hitsFrom_of_none hnone, ih fun d hd => hu d (List.mem_cons_of_mem c hd),
      List.length_cons, List.reverse_cons, List.append_assoc, Nat.add_assoc, Nat.add_comm 1]
    rfl

theorem replace_eq_self {read : Recognizer Text} (hread : BeginsWith first read)
    (ht : ∀ c ∈ text, ¬ first c) : replace read text = text := by
  -- the characters in front of the text are carried along
  suffices hfrom : ∀ before, replaceFrom read before 0 text = text from hfrom []
  induction text with
  | nil => exact fun _ => rfl
  | cons c t ih =>
    intro before
    have hnone : read before (c :: t) = none := hread.read_eq_none (ht c List.mem_cons_self)
    rw [replaceFrom]
    simp only [hnone]
    rw [ih fun d hd => ht d (List.mem_cons_of_mem c hd)]

end Scan

open Scan (BeginsWith)

/-- All commands begin with a backslash. -/
abbrev IsBackslash (c : Char) : Prop := c = '\\'

namespace Markup

theorem command?_begins {name t rest : Text} (h : command? name t = some rest) :
    ∃ c u, t = c :: u ∧ IsBackslash c :=
  ⟨'\\', name ++ rest, Text.dropPrefix?_eq_some_iff.mp h, rfl⟩

theorem word?_begins {name t rest : Text} (h : word? name t = some rest) :
    ∃ c u, t = c :: u ∧ IsBackslash c :=
  command?_begins (Option.filter_eq_some_iff.mp h).1

end Markup

open Markup (command?_begins word?_begins)

theorem Definition.head_begins : BeginsWith IsBackslash head := by
  intro before rest value after h
  simp only [head, Option.orElse_eq_orElse, Option.orElse_eq_or, Option.or_eq_some_iff,
    Option.map_eq_some_iff] at h
  rcases h with ⟨t, ht, -⟩ | ⟨-, ⟨t, ht, -⟩ | ⟨-, ⟨t, ht, -⟩ | ⟨-, ⟨t, ht, -⟩ | ⟨-, t, ht, -⟩⟩⟩⟩
  · exact command?_begins ht
  · exact command?_begins ht
  · exact command?_begins ht
  · exact command?_begins ht
  · exact word?_begins ht

theorem Macro.invocation_begins (m : Macro) : BeginsWith IsBackslash m.invocation := by
  intro before rest value after h
  obtain ⟨t, ht, -⟩ := Option.map_eq_some_iff.mp h
  exact word?_begins ht

theorem Environment.token_begins : BeginsWith IsBackslash token := by
  intro before rest value after h
  simp only [token, Option.orElse_eq_orElse, Option.orElse_eq_or, Option.or_eq_some_iff,
    Option.map_eq_some_iff, Option.bind_eq_some_iff, section?, declaration?,
    Option.bind_eq_bind] at h
  rcases h with ⟨_, ⟨t, ht, -⟩, -⟩ | ⟨-, ⟨_, ⟨t, ht, -⟩, -⟩ | ⟨-, ⟨_, ⟨t, ht, -⟩, -⟩ |
    ⟨-, _, ⟨t, ht, -⟩, -⟩⟩⟩
  all_goals exact command?_begins ht

theorem Label.command_begins : BeginsWith IsBackslash command := by
  intro before rest value after h
  obtain ⟨t, ht, -⟩ := Option.bind_eq_some_iff.mp h
  exact command?_begins ht

theorem Label.erased_begins : BeginsWith IsBackslash erased := by
  intro before rest value after h
  obtain ⟨_, hcommand, -⟩ := Option.map_eq_some_iff.mp h
  exact command_begins _ _ _ _ hcommand

theorem Reference.command_begins : BeginsWith IsBackslash command := by
  intro before rest value after h
  obtain ⟨_, hname, -⟩ := Option.bind_eq_some_iff.mp h
  obtain ⟨_, _, hfound⟩ := List.exists_of_findSome?_eq_some hname
  obtain ⟨t, ht, -⟩ := Option.map_eq_some_iff.mp hfound
  exact command?_begins ht

theorem Citation.command_begins : BeginsWith IsBackslash command := by
  intro before rest value after h
  obtain ⟨_, _, hfound⟩ := List.exists_of_findSome?_eq_some h
  obtain ⟨t, ht, -⟩ := Option.bind_eq_some_iff.mp hfound
  exact command?_begins ht

namespace Sizing

theorem sized_begins : BeginsWith IsBackslash sized := by
  intro before rest value after h
  simp only [sized, Option.orElse_eq_orElse, Option.orElse_eq_or, Option.or_eq_some_iff,
    Option.bind_eq_bind, Option.bind_eq_some_iff] at h
  rcases h with ⟨t, ht, -⟩ | ⟨-, t, ht, -⟩
  all_goals exact word?_begins ht

theorem big?_begins {t rest : Text} (h : big? t = some rest) :
    ∃ c u, t = c :: u ∧ IsBackslash c := by
  obtain ⟨afterBig, hbig, -⟩ := Option.bind_eq_some_iff.mp h
  rw [Option.orElse_eq_orElse, Option.orElse_eq_or, Option.or_eq_some_iff] at hbig
  rcases hbig with hbig | ⟨-, hbig⟩
  · exact command?_begins hbig
  · exact command?_begins hbig

theorem invisible_begins : BeginsWith IsBackslash invisible := by
  intro before rest value after h
  obtain ⟨t, ht, -⟩ := Option.bind_eq_some_iff.mp h
  exact big?_begins ht

theorem single_begins : BeginsWith IsBackslash single := by
  intro before rest value after h
  obtain ⟨t, ht, -⟩ := Option.bind_eq_some_iff.mp h
  exact big?_begins ht

end Sizing

theorem Layout.prose_begins : BeginsWith IsBackslash prose := by
  intro before rest value after h
  obtain ⟨t, ht, -⟩ := Option.bind_eq_some_iff.mp h
  exact word?_begins ht

/-- Delimiters begin with the first characters of the delimiters that are looked for. -/
theorem Delimiter.token_begins {rules : List DelimiterRule} {first : Char → Prop}
    (hfirst : ∀ d ∈ inertTokens ++ marks rules, ∃ c ∈ d.head?, first c) :
    BeginsWith first (token (tokens rules)) := by
  intro before rest value after h
  obtain ⟨hvalue, rfl⟩ := token_spec h
  obtain ⟨c, hc, hfirstc⟩ := hfirst value (List.mem_append.mpr (mem_tokens.mp hvalue))
  obtain ⟨u, rfl⟩ := List.head?_eq_some_iff.mp (Option.mem_def.mp hc)
  exact ⟨c, u ++ after, rfl, hfirstc⟩

/-! ### Passes over texts without commands -/

/-- Without edits a text stays as it is. -/
theorem Noted.edited_nil (text : Text) : edited text [] = pure text := by
  have hslice : Text.slice text 0 text.length = text := by simp [Text.slice]
  have hnone : Edit.applyWithin text 0 text.length [] = .ok text := by
    rw [(Edit.Ordered.nil).applyWithin_eq_splice text, Edit.splice, hslice]
  simp only [edited, editedWithin, hnone, Except.mapError]
  rfl

/-- No command stands in the text. -/
abbrev Commandless (text : Text) : Prop := ∀ c ∈ text, ¬ IsBackslash c

section

variable {text : Text} (ht : Commandless text)

include ht

theorem Definition.collect_of_commandless : collect text = pure (text, []) := by
  rw [collect, Scan.hits_eq_nil head_begins ht, List.foldlM_nil, pure_bind, edited_nil]
  rfl

theorem Macro.expand_of_commandless (m : Macro) : m.expand text = pure text := by
  rw [expand, Scan.hits_eq_nil m.invocation_begins ht, List.foldlM_nil, pure_bind, edited_nil]

theorem Macro.expandAll_of_commandless (ms : List Macro) : expandAll ms text = pure text := by
  rw [expandAll]
  induction ms.mergeSort expandsBefore with
  | nil => rfl
  | cons m ms ih => rw [List.foldlM_cons, expand_of_commandless ht, pure_bind, ih]

theorem Environment.resolve_of_commandless (settings : Settings) (register : TheoremRegister)
    (equations : Nat) :
    resolve settings register equations text = pure ⟨text, register, equations⟩ := by
  rw [resolve, Scan.hits_eq_nil token_begins ht, List.foldlM_nil, pure_bind]
  -- no frame has been opened, so that none is left open
  have hfinish : finish (.start register equations) = pure (.start register equations) := rfl
  rw [hfinish, pure_bind]
  simp only [Progress.start, edited_nil, pure_bind]

theorem Label.collect_of_commandless (base : Int) : collect base text = pure [] := by
  rw [collect, Scan.hits_eq_nil command_begins ht, List.foldlM_nil, pure_bind]

theorem Label.removeAll_of_commandless : removeAll text = text :=
  Scan.replace_eq_self erased_begins ht

theorem Reference.replaceAll_of_commandless (mode : ReferenceMode) (templates : Table Text)
    (labels : Table Label.Record) : replaceAll mode templates labels text = pure text := by
  unfold replaceAll
  split
  · rfl
  · rw [Scan.hits_eq_nil command_begins ht, List.foldlM_nil, pure_bind, edited_nil]

theorem Citation.format_of_commandless (templates : Table Text) :
    format templates text = pure text := by
  rw [format, Scan.hits_eq_nil command_begins ht, List.foldlM_nil, pure_bind, edited_nil]

theorem Sizing.stripAll_of_commandless : stripAll text = pure text := by
  have hpairs : stripPairs text = pure text := by
    rw [stripPairs, Scan.hits_eq_nil sized_begins ht]
    exact edited_nil text
  rw [stripAll, hpairs, pure_bind, Scan.replace_eq_self invisible_begins ht,
    Scan.replace_eq_self single_begins ht]

theorem Layout.unifyProse_of_commandless : unifyProse text = text :=
  Scan.replace_eq_self prose_begins ht

/-- The last touches come down to those on blanks and empty lines. -/
theorem Phase.cleanUp_of_commandless (config : Config) :
    cleanUp config text = pure (Layout.tidy text) := by
  have hprose : (if config.unifyProse then Layout.unifyProse text else text) = text := by
    split
    · exact Layout.unifyProse_of_commandless ht
    · rfl
  unfold cleanUp
  dsimp only
  split
  · rw [Sizing.stripAll_of_commandless ht, pure_bind, hprose]
  · rw [pure_bind, hprose]

end

/-- Delimiters are missing where their first characters are. -/
theorem Delimiter.normalize_of_missing {rules : List DelimiterRule} {first : Char → Prop}
    (hfirst : ∀ d ∈ inertTokens ++ marks rules, ∃ c ∈ d.head?, first c) {text : Text}
    (ht : ∀ c ∈ text, ¬ first c) : normalize rules text = pure text := by
  have hnone : delimiters rules text = [] := by
    rw [delimiters, Scan.hits_eq_nil (token_begins hfirst) ht]
    rfl
  rw [normalize, pairs, hnone, List.foldlM_nil, pure_bind]
  exact edited_nil text

/-- No line of the text begins with a quote marker. -/
def Unquoted (text : Text) : Prop := ∀ l ∈ Text.lines text, Callout.isQuoted l = false

/-- Callouts begin with a quote marker. -/
theorem Callout.theoremHead?_of_unquoted {line : Text} (h : isQuoted line = false) :
    theoremHead? line = none := by
  have hhead : head? line = none := by
    cases line with
    | nil => rfl
    | cons c line =>
      have hc : c ≠ '>' := by
        rintro rfl
        simp [isQuoted] at h
      simp [head?, Markup.char?, hc]
  rw [theoremHead?, hhead]
  rfl

theorem Callout.toEnvironments_of_unquoted {text : Text} (ht : Unquoted text) :
    toEnvironments text = text := by
  rw [toEnvironments, toEnvironmentLines_eq_self fun l hl => theoremHead?_of_unquoted (ht l hl)]
  exact Text.join_splitOn '\n' text

/-! ### Phases -/

namespace Phase

variable {setup : Setup} {text : Text}

/-- A phase **leaves** a text behind and reports nothing, whatever is known of the document. -/
def Leaves (setup : Setup) (phase : Phase) (text text' : Text) : Prop :=
  ∀ state, ∃ state', phase.apply setup text state = pure (text', state')

theorem macros_leaves (ht : Commandless text) : Leaves setup .macros text text := by
  intro state
  refine ⟨{ state with macros := state.macros.merge [] }, ?_⟩
  simp only [apply, applyMacros, Definition.collect_of_commandless ht, pure_bind,
    Macro.expandAll_of_commandless ht]

theorem environments_leaves (ht : Commandless text) : Leaves setup .environments text text := by
  intro state
  refine ⟨state, ?_⟩
  simp only [apply, applyEnvironments, Environment.resolve_of_commandless ht, pure_bind]

theorem references_leaves (ht : Commandless text) : Leaves setup .references text text := by
  intro state
  have hremoved : (if setup.config.removeLabels then Label.removeAll text else text) = text := by
    split
    · exact Label.removeAll_of_commandless ht
    · rfl
  refine ⟨{ state with labels := state.labels.merge [] }, ?_⟩
  unfold apply applyReferences
  dsimp only
  split
  · rw [Label.collect_of_commandless ht, pure_bind, Reference.replaceAll_of_commandless ht,
      pure_bind, hremoved]
  · rw [pure_bind, Reference.replaceAll_of_commandless ht, pure_bind, hremoved]

theorem citations_leaves (ht : Commandless text) : Leaves setup .citations text text := by
  intro state
  refine ⟨state, ?_⟩
  simp only [apply, Citation.format_of_commandless ht, pure_bind]

theorem cleanup_leaves (ht : Commandless text) :
    Leaves setup .cleanup text (Layout.tidy text) := by
  intro state
  refine ⟨state, ?_⟩
  simp only [apply, cleanUp_of_commandless ht, pure_bind]

theorem delimiters_leaves {first : Char → Prop}
    (hfirst : ∀ d ∈ Delimiter.inertTokens ++ Delimiter.marks (delimiterRules setup.direction),
      ∃ c ∈ d.head?, first c)
    (ht : ∀ c ∈ text, ¬ first c) : Leaves setup .delimiters text text := by
  intro state
  refine ⟨state, ?_⟩
  simp only [apply, Delimiter.normalize_of_missing hfirst ht, pure_bind]

theorem callouts_leaves (ht : Unquoted text) : Leaves setup .callouts text text := by
  intro state
  refine ⟨state, ?_⟩
  simp only [apply, Callout.toEnvironments_of_unquoted ht]

end Phase

/-! ### Conversions -/

namespace Conversion

/-- A sequence of phases **carries** a text into another one without any report. -/
def Carries (setup : Setup) (phases : List Phase) (text text' : Text) : Prop :=
  ∀ state, ((runPhases setup phases text state).1.getLast?.map (·.text)).getD text = text' ∧
    (runPhases setup phases text state).1.flatMap (·.notes) = []

variable {setup : Setup} {phase : Phase} {phases : List Phase} {text middle text' : Text}

theorem carries_nil : Carries setup [] text text := fun _ => ⟨rfl, rfl⟩

/-- A phase that is not enabled leaves the text as it is. -/
theorem carries_cons (hphase : phase.Leaves setup text middle)
    (henabled : phase.enabled setup.config = false → middle = text)
    (hphases : Carries setup phases middle text') :
    Carries setup (phase :: phases) text text' := by
  intro state
  have hrun : ∃ enabled state',
      runPhase setup phase text state = (⟨phase, enabled, middle, []⟩, state') := by
    unfold runPhase
    cases h : phase.enabled setup.config with
    | false => exact ⟨false, state, by simp [henabled h]⟩
    | true =>
      obtain ⟨state', happly⟩ := hphase state
      exact ⟨true, state', by simp [happly]⟩
  obtain ⟨enabled, state', hrun⟩ := hrun
  obtain ⟨htext, hnotes⟩ := hphases state'
  rw [runPhases, hrun]
  refine ⟨?_, by simpa using hnotes⟩
  rw [← htext, List.getLast?_cons, Option.map_some, Option.getD_some]
  cases (runPhases setup phases middle state').1.getLast? <;> rfl

theorem transform_of_carries (h : Carries setup setup.direction.phases text text') :
    transform setup text = ⟨text', []⟩ := by
  obtain ⟨htext, hnotes⟩ := h .empty
  rw [transform, trace, htext, hnotes]

/-- **Documents without markup pass through.**  Whatever the setup says:

    * a text with no backslash is only tidied on its way to Markdown;
    * a text with no backslash, no dollar, and no line that begins with a quote marker comes back
      unchanged on its way to TeX;
    * and nothing is reported. -/
theorem transform_of_unmarked (setup : Setup) (text : Text) (hbackslash : '\\' ∉ text) :
    (setup.direction = .forward → transform setup text = ⟨Layout.tidy text, []⟩) ∧
    (setup.direction = .reverse → '$' ∉ text → Unquoted text →
      transform setup text = ⟨text, []⟩) := by
  have ht : Commandless text := by
    rintro c hc rfl
    exact hbackslash hc
  constructor
  · intro hforward
    apply transform_of_carries
    rw [hforward]
    have hhead : ∀ d ∈ Delimiter.inertTokens ++ Delimiter.marks (Phase.delimiterRules .forward),
        d.head? = some '\\' := by decide
    have hfirst : ∀ d ∈ Delimiter.inertTokens ++
        Delimiter.marks (Phase.delimiterRules setup.direction), ∃ c ∈ d.head?, IsBackslash c := by
      rw [hforward]
      exact fun d hd => ⟨'\\', hhead d hd, rfl⟩
    refine carries_cons (Phase.macros_leaves ht) (fun _ => rfl) ?_
    refine carries_cons (Phase.environments_leaves ht) (fun _ => rfl) ?_
    refine carries_cons (Phase.references_leaves ht) (fun _ => rfl) ?_
    refine carries_cons (Phase.citations_leaves ht) (fun _ => rfl) ?_
    refine carries_cons (Phase.delimiters_leaves hfirst ht) (fun _ => rfl) ?_
    exact carries_cons (Phase.cleanup_leaves ht) nofun carries_nil
  · intro hreverse hdollar hunquoted
    apply transform_of_carries
    rw [hreverse]
    have hhead : ∀ d ∈ Delimiter.inertTokens ++ Delimiter.marks (Phase.delimiterRules .reverse),
        d.head? = some '\\' ∨ d.head? = some '$' := by decide
    have hfirst : ∀ d ∈ Delimiter.inertTokens ++
        Delimiter.marks (Phase.delimiterRules setup.direction),
          ∃ c ∈ d.head?, IsBackslash c ∨ c = '$' := by
      rw [hreverse]
      intro d hd
      rcases hhead d hd with h | h
      · exact ⟨'\\', h, .inl rfl⟩
      · exact ⟨'$', h, .inr rfl⟩
    have hmissing : ∀ c ∈ text, ¬ (IsBackslash c ∨ c = '$') := by
      rintro c hc (hcommand | rfl)
      · exact ht c hc hcommand
      · exact hdollar hc
    refine carries_cons (Phase.macros_leaves ht) (fun _ => rfl) ?_
    refine carries_cons (Phase.callouts_leaves hunquoted) (fun _ => rfl) ?_
    exact carries_cons (Phase.delimiters_leaves hfirst hmissing) (fun _ => rfl) carries_nil

/-- A callout, dollars and groups do not count on the way to Markdown; markers behind the
    beginning of a line do not count on the way back. -/
theorem transform_of_unmarked_callout :
    transform (.ofConfig { Config.default with removeLabels := true } .forward)
        "> [!theorem] $a$ \n\n\n\n{begin}[2pt]\t" =
      ⟨"> [!theorem] $a$\n\n{begin}[2pt]", []⟩ ∧
    transform (.ofConfig Config.default .reverse)
        " > [!theorem] a \n\n\n\n{begin}[2pt]\t" =
      ⟨" > [!theorem] a \n\n\n\n{begin}[2pt]\t", []⟩ := by
  constructor
  · rw [(transform_of_unmarked _ _ (by decide)).1 rfl]
    decide
  · exact (transform_of_unmarked _ _ (by decide)).2 rfl (by decide) (by unfold Unquoted; decide)

end Conversion

end TexMark
