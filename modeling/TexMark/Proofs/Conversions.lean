/-
  TexMark/Proofs/Conversions.lean
  ===============================
  **Which conversions fail.**  A phase that meets a fault is passed over and reported.  Only
  the phase of the macros can meet one, and only at a definition whose number of arguments is
  written in digits but cannot be read:

    * `ScansFit` — the edits of every scan fit into their window, so that applying them never
      refuses any;
    * `Phase.exists_result_apply` — all phases but that of the macros have a result;
    * `faults_of_conversion` — what this says of whole conversions.

  Several documents are converted in any order, and each on its own
  (`transformInOrder_eq_map`).
-/
import TexMark.Conversion
import TexMark.Proofs.Definitions
import TexMark.Proofs.Label.Numbers
import TexMark.Proofs.Delimiter.Items
import TexMark.Proofs.Environment.Placement

namespace TexMark

open Noted

/-! ### The scans -/

/-- The edits that each scan of a text collects **fit**: they lie in the window in which they
    are applied, and apart from each other. -/
structure ScansFit (text : Text) : Prop where
  definitions : ∀ s : Definition.Progress,
    ((Scan.hits Definition.head text).foldlM (Definition.collectHit text) ⟨0, [], []⟩).result =
      .ok s → Edit.Fit 0 text.length s.edits
  expansion : ∀ m : Macro, ∃ s,
    ((Scan.hits m.invocation text).foldlM (Macro.expandHit m text) ⟨0, []⟩).result = .ok s ∧
      Edit.Fit 0 text.length s.edits
  /-- The frames at every depth, when the scan comes to the next mark. -/
  frames : ∀ (settings : Environment.Settings) (register : TheoremRegister) (equations : Nat)
    (taken : List (Hit Environment.Token)) (h : Hit Environment.Token),
    taken ++ [h] <+: Scan.hits Environment.token text → ∃ s,
      (taken.foldlM (Environment.step settings text) (.start register equations)).result =
          .ok s ∧
        (s.cursor ≤ h.start → Edit.Fit 0 h.start s.edits ∧
          ∀ f ∈ s.stack, Edit.Fit f.contentStart h.start f.edits)
  /-- All that is left of frames in the end. -/
  environments : ∀ (settings : Environment.Settings) (register : TheoremRegister)
    (equations : Nat), ∃ s,
      ((Scan.hits Environment.token text).foldlM (Environment.step settings text)
        (.start register equations) >>= Environment.finish).result = .ok s ∧
          Edit.Fit 0 text.length s.edits
  references : ∀ (mode : ReferenceMode) (templates : Table Text) (labels : Table Label.Record),
    ∃ edits, ((Scan.hits Reference.command text).foldlM
      (Reference.replaceHit mode templates labels text) []).result = .ok edits ∧
        Edit.Fit 0 text.length edits
  citations : ∀ templates : Table Text, ∃ s,
    ((Scan.hits Citation.command text).foldlM (Citation.formatHit templates text)
      ⟨0, []⟩).result = .ok s ∧ Edit.Fit 0 text.length s.edits
  delimiters : ∀ direction : Direction, ∃ edits,
    (Delimiter.pairs (Phase.delimiterRules direction) text).result = .ok edits ∧
      Edit.Fit 0 text.length edits
  sizing : Edit.Fit 0 text.length ((Sizing.found text).foldl Sizing.pairUp ⟨[], []⟩).edits

theorem written_delimiterRules (direction : Direction) :
    Delimiter.Written (Phase.delimiterRules direction) := by
  cases direction <;> decide

/-- **The edits of every scan fit.** -/
theorem scansFit (text : Text) : ScansFit text where
  definitions _ hs := Definition.edits_collect hs
  expansion m := Macro.edits_expand m text
  frames settings register equations _ _ htaken :=
    Environment.windows_fit settings register equations htaken
  environments settings register equations := by
    obtain ⟨s, hs, hordered, -⟩ :=
      Environment.exists_scan_start settings register equations text
    refine ⟨{ s with stack := [], edits := s.edits ++ Environment.surrendered s.stack }, ?_,
      hordered.fit⟩
    rw [bind_of_ok hs, Environment.finish_eq]
  references mode templates labels := Reference.edits_replaceAll mode templates labels text
  citations templates := Citation.edits_format templates text
  delimiters direction := Delimiter.edits_pairs (written_delimiterRules direction) text
  sizing := Sizing.edits_stripPairs text

/-! ### Labels -/

theorem Label.noFailure_collect (base : Int) (text : Text) : NoFailure (collect base text) := by
  refine only_bind (only_foldlM (fun s h => ?_) _ _) fun _ => only_pure _
  unfold collectHit
  split
  · exact only_pure s
  · dsimp only
    split
    · exact only_bind (only_report (by decide) _ _) fun _ => only_pure _
    · exact only_pure _

/-! ### Phases -/

namespace Phase

/-- The phase of the macros stops exactly at an unreadable definition. -/
theorem result_applyMacros_cases (text : Text) (state : State) :
    (∃ error, (∃ h ∈ Definition.reached text 0 (Scan.hits Definition.head text),
          Definition.Unreadable text h error) ∧
        (applyMacros text state).result = .error (.integer error)) ∨
      ((∀ h ∈ Definition.reached text 0 (Scan.hits Definition.head text), ∀ error,
          ¬ Definition.Unreadable text h error) ∧
        ∃ r, (applyMacros text state).result = .ok r) := by
  rcases Definition.result_collect_cases text with
    ⟨error, hreached, hfault⟩ | ⟨hreadable, ⟨body, defined⟩, hcollected⟩
  · exact .inl ⟨error, hreached, by rw [applyMacros, bind_of_error hfault]⟩
  · refine .inr ⟨hreadable, ?_⟩
    rw [applyMacros, bind_of_ok hcollected]
    exact exists_result_bind (Macro.exists_result_expandAll _ _) fun _ =>
      exists_result_bind (Macro.exists_result_expandAll _ _) fun _ => ⟨_, rfl⟩

/-- **All phases but that of the macros have a result.** -/
theorem exists_result_apply {phase : Phase} (hphase : phase ≠ .macros) (setup : Setup)
    (text : Text) (state : State) : ∃ r, (phase.apply setup text state).result = .ok r := by
  cases phase with
  | macros => exact absurd rfl hphase
  | environments =>
    exact exists_result_bind (Environment.exists_result_resolve _ _ _ _) fun _ => ⟨_, rfl⟩
  | references =>
    unfold Phase.apply applyReferences
    dsimp only
    split
    · exact exists_result_bind (Label.exists_result_collect _ _) fun _ =>
        exists_result_bind (Reference.exists_result_replaceAll _ _ _ _) fun _ => ⟨_, rfl⟩
    · rw [pure_bind]
      exact exists_result_bind (Reference.exists_result_replaceAll _ _ _ _) fun _ => ⟨_, rfl⟩
  | citations => exact exists_result_bind (Citation.exists_result_format _ _) fun _ => ⟨_, rfl⟩
  | delimiters =>
    exact exists_result_bind
      (Delimiter.exists_result_normalize (written_delimiterRules setup.direction))
      fun _ => ⟨_, rfl⟩
  | cleanup =>
    refine exists_result_bind ?_ fun _ => ⟨_, rfl⟩
    unfold cleanUp
    dsimp only
    split
    · exact exists_result_bind (Sizing.exists_result_stripAll text) fun _ => ⟨_, rfl⟩
    · exact ⟨_, rfl⟩
  | callouts => exact ⟨_, rfl⟩

theorem noFailure_apply (phase : Phase) (setup : Setup) (text : Text) (state : State) :
    NoFailure (phase.apply setup text state) := by
  cases phase with
  | macros =>
    exact only_bind (Definition.noFailure_collect text) fun _ =>
      only_bind (Macro.noFailure_expandAll _ _) fun _ =>
        only_bind (Macro.noFailure_expandAll _ _) fun _ => only_pure _
  | environments =>
    exact only_bind (Environment.noFailure_resolve _ _ _ _) fun _ => only_pure _
  | references =>
    unfold Phase.apply applyReferences
    dsimp only
    split
    · exact only_bind (Label.noFailure_collect _ _) fun _ =>
        only_bind (Reference.noFailure_replaceAll _ _ _ _) fun _ => only_pure _
    · rw [pure_bind]
      exact only_bind (Reference.noFailure_replaceAll _ _ _ _) fun _ => only_pure _
  | citations => exact only_bind (Citation.noFailure_format _ _) fun _ => only_pure _
  | delimiters => exact only_bind Delimiter.noFailure_normalize fun _ => only_pure _
  | cleanup =>
    refine only_bind ?_ fun _ => only_pure _
    unfold cleanUp
    dsimp only
    split
    · exact only_bind (Sizing.noFailure_stripAll text) fun _ => only_pure _
    · exact only_pure _
  | callouts => exact only_pure _

end Phase

/-! ### Conversions -/

namespace Conversion

/-- The phases behind that of the macros, on the text as it is written. -/
def withoutMacros (setup : Setup) (text : Text) : List Step × State :=
  runPhases setup setup.direction.phases.tail text .empty

/-- Macros are to be expanded, and the collection reaches a definition beyond reading. -/
def MacrosFail (setup : Setup) (text : Text) (error : Integer.ReadError) : Prop :=
  setup.config.expandMacros = true ∧
    ∃ h ∈ Definition.reached text 0 (Scan.hits Definition.head text),
      Definition.Unreadable text h error

/-- A phase with a result reports no failure. -/
theorem notes_runPhase_of_ok {setup : Setup} {phase : Phase} {text : Text} {state : State}
    (h : ∃ r, (phase.apply setup text state).result = .ok r) :
    ∀ d ∈ (runPhase setup phase text state).1.notes, d.kind ≠ .phaseFailure := by
  obtain ⟨⟨text', state'⟩, h⟩ := h
  unfold runPhase
  split
  · simp
  · dsimp only
    rw [h]
    exact Phase.noFailure_apply phase setup text state

/-- Behind the phase of the macros no phase reports a failure. -/
theorem notes_runPhases_of_ok (setup : Setup) {phases : List Phase} (hphases : .macros ∉ phases)
    (text : Text) (state : State) :
    ∀ d ∈ (runPhases setup phases text state).1.flatMap (·.notes), d.kind ≠ .phaseFailure := by
  induction phases generalizing text state with
  | nil => simp [runPhases]
  | cons phase phases ih =>
    obtain ⟨hphase, hphases⟩ := not_or.mp (mt List.mem_cons.mpr hphases)
    intro d hd
    rw [runPhases, List.flatMap_cons] at hd
    rcases List.mem_append.mp hd with hd | hd
    · exact notes_runPhase_of_ok
        (Phase.exists_result_apply (Ne.symm hphase) setup text state) d hd
    · exact ih hphases _ _ d hd

/-- Only the phase of the macros changes the macros. -/
theorem macros_apply {phase : Phase} (hphase : phase ≠ .macros) {setup : Setup} {text : Text}
    {state : State} {r : Text × State} (h : (phase.apply setup text state).result = .ok r) :
    r.2.macros = state.macros := by
  cases phase with
  | macros => exact absurd rfl hphase
  | environments =>
    obtain ⟨resolved, -, h⟩ := of_result_bind h
    cases h
    rfl
  | references =>
    unfold Phase.apply Phase.applyReferences at h
    dsimp only at h
    split at h
    all_goals
      obtain ⟨found, -, h⟩ := of_result_bind h
      obtain ⟨replaced, -, h⟩ := of_result_bind h
      cases h
      rfl
  | citations =>
    obtain ⟨shown, -, h⟩ := of_result_bind h
    cases h
    rfl
  | delimiters =>
    obtain ⟨shown, -, h⟩ := of_result_bind h
    cases h
    rfl
  | cleanup =>
    obtain ⟨tidied, -, h⟩ := of_result_bind h
    cases h
    rfl
  | callouts =>
    cases h
    rfl

theorem macros_runPhases (setup : Setup) {phases : List Phase} (hphases : .macros ∉ phases)
    (text : Text) (state : State) :
    (runPhases setup phases text state).2.macros = state.macros := by
  induction phases generalizing text state with
  | nil => rfl
  | cons phase phases ih =>
    obtain ⟨hphase, hphases⟩ := not_or.mp (mt List.mem_cons.mpr hphases)
    rw [runPhases]
    refine (ih hphases _ _).trans ?_
    unfold runPhase
    split
    · rfl
    · dsimp only
      split
      · rename_i h
        exact macros_apply (Ne.symm hphase) h
      · rfl

/-- Both directions begin with the phase of the macros, and never come back to it. -/
theorem phases_eq (direction : Direction) :
    direction.phases = .macros :: direction.phases.tail ∧ .macros ∉ direction.phases.tail := by
  cases direction <;> decide

/-- A conversion is the phase of the macros and the phases behind it. -/
theorem trace_eq (setup : Setup) (text : Text) :
    trace setup text =
      let first := runPhase setup .macros text .empty
      let later := runPhases setup setup.direction.phases.tail first.1.text first.2
      (first.1 :: later.1, later.2) := by
  rw [trace, (phases_eq setup.direction).1, runPhases, List.tail_cons]

theorem diagnostics_transform (setup : Setup) (text : Text) :
    let first := runPhase setup .macros text .empty
    (transform setup text).diagnostics = first.1.notes ++
      (runPhases setup setup.direction.phases.tail first.1.text first.2).1.flatMap (·.notes) := by
  simp only [transform, trace_eq, List.flatMap_cons]

/-- The phase of the macros with a fault leaves text and state alone. -/
theorem runPhase_macros_of_error {setup : Setup} {text : Text} {state : State} {fault : Fault}
    (henabled : setup.config.expandMacros = true)
    (h : (Phase.applyMacros text state).result = .error fault) :
    runPhase setup .macros text state =
      (⟨.macros, true, text,
        (Phase.applyMacros text state).notes ++ [Phase.failure .macros fault]⟩, state) := by
  unfold runPhase
  rw [if_neg (by simp [Phase.enabled, henabled])]
  simp only [Phase.apply, h]

/-- A conversion either reports no failure, or the phase of the macros has stopped at an
    unreadable definition. -/
theorem failure_cases (setup : Setup) (text : Text) :
    (∃ error notes, MacrosFail setup text error ∧
        trace setup text =
          (⟨.macros, true, text, notes ++ [Phase.failure .macros (.integer error)]⟩ ::
            (withoutMacros setup text).1, (withoutMacros setup text).2) ∧
        ∀ d ∈ notes, d.kind ≠ .phaseFailure) ∨
      ((∀ error, ¬ MacrosFail setup text error) ∧
        ∀ d ∈ (transform setup text).diagnostics, d.kind ≠ .phaseFailure) := by
  have hlater := (phases_eq setup.direction).2
  rcases Phase.result_applyMacros_cases text .empty with
    ⟨error, hreached, hfault⟩ | ⟨hreadable, hresult⟩
  · cases henabled : setup.config.expandMacros with
    | true =>
      refine .inl ⟨error, (Phase.applyMacros text .empty).notes, ⟨henabled, hreached⟩, ?_,
        Phase.noFailure_apply .macros setup text .empty⟩
      rw [trace_eq, runPhase_macros_of_error henabled hfault]
      rfl
    | false =>
      right
      constructor
      · intro error hfail
        simp [MacrosFail, henabled] at hfail
      · intro d hd
        rw [diagnostics_transform] at hd
        rcases List.mem_append.mp hd with hd | hd
        · simp [runPhase, Phase.enabled, henabled] at hd
        · exact notes_runPhases_of_ok setup hlater _ _ d hd
  · right
    constructor
    · rintro error ⟨-, h, hreached, hunreadable⟩
      exact hreadable h hreached error hunreadable
    · intro d hd
      have hmacros : ∃ r, (Phase.apply .macros setup text .empty).result = .ok r := hresult
      rw [diagnostics_transform] at hd
      rcases List.mem_append.mp hd with hd | hd
      · exact notes_runPhase_of_ok hmacros d hd
      · exact notes_runPhases_of_ok setup hlater _ _ d hd

/-- **What a conversion can fail at.**  For every document and every setup:

    * all phases but that of the macros have a result, whatever they are applied to;
    * a failure is reported if and only if macros are expanded and a definition that the
      collection reaches has a number of arguments beyond reading;
    * it is reported once, by the phase of the macros, and with the error of such a number;
      the phases behind run as if macros were not expanded, on the text as it is written, and
      no macro is known in the end;
    * the edits of every scan of every text fit into their window and lie apart, and edits that
      do are never refused. -/
theorem faults_of_conversion (setup : Setup) (text : Text) :
    (∀ phase ≠ .macros, ∀ (t : Text) (state : State),
      ∃ r, (Phase.apply phase setup t state).result = .ok r) ∧
    ((∃ d ∈ (transform setup text).diagnostics, d.kind = .phaseFailure) ↔
      ∃ error, MacrosFail setup text error) ∧
    ((∃ error, MacrosFail setup text error) → ∃ error notes,
      MacrosFail setup text error ∧
      (transform setup text).diagnostics.filter (·.kind = .phaseFailure) =
        [Phase.failure .macros (.integer error)] ∧
      trace setup text = (⟨.macros, true, text, notes⟩ :: (withoutMacros setup text).1,
        (withoutMacros setup text).2) ∧
      (trace setup text).2.macros = []) ∧
    (∀ t : Text, ScansFit t) ∧
    ∀ (t : Text) (start stop : Nat) (edits : List Edit), Edit.Fit start stop edits →
      Edit.applyWithin t start stop edits =
        .ok (Edit.splice t start stop (Edit.inOrder edits)) := by
  refine ⟨fun phase hphase t state => Phase.exists_result_apply hphase setup t state, ?_, ?_,
    scansFit, fun t _ _ _ h => Edit.applyWithin_eq_splice t h⟩
  · rcases failure_cases setup text with ⟨error, notes, hfail, htrace, -⟩ | ⟨hok, hclean⟩
    · refine iff_of_true ⟨Phase.failure .macros (.integer error), ?_, rfl⟩ ⟨error, hfail⟩
      simp [transform, htrace]
    · refine iff_of_false ?_ (not_exists.mpr hok)
      rintro ⟨d, hd, hkind⟩
      exact hclean d hd hkind
  · rintro ⟨error', hfail'⟩
    rcases failure_cases setup text with ⟨error, notes, hfail, htrace, hnotes⟩ | ⟨hok, -⟩
    · refine ⟨error, _, hfail, ?_, htrace, ?_⟩
      · have hfirst : notes.filter (·.kind = .phaseFailure) = [] :=
          List.filter_eq_nil_iff.mpr fun d hd => by simpa using hnotes d hd
        have hlater : ((withoutMacros setup text).1.flatMap (·.notes)).filter
            (·.kind = .phaseFailure) = [] :=
          List.filter_eq_nil_iff.mpr fun d hd => by
            simpa using notes_runPhases_of_ok setup (phases_eq setup.direction).2 text .empty d hd
        simp only [transform, htrace, List.flatMap_cons, List.filter_append, hfirst, hlater,
          List.nil_append, List.append_nil]
        rfl
      · rw [htrace]
        exact macros_runPhases setup (phases_eq setup.direction).2 text .empty
    · exact absurd hfail' (hok error')

/-! ### Several documents -/

/-- Of the results that are there for a place each is that of its document. -/
theorem find?_transformAt (setup : Setup) (texts : List Text) {places : List Nat} {place : Nat}
    (hplace : place ∈ places) :
    ((transformAt setup texts places).find? fun e => e.1 == place).map (·.2) =
      texts[place]?.map (transform setup) := by
  have hat : ∀ q, ((texts[q]?.map fun text => (q, transform setup text)).any
      fun e => e.1 == place) = true ↔ q = place ∧ (texts[q]?).isSome := by
    intro q
    cases texts[q]? <;> simp
  rw [transformAt, List.find?_filterMap]
  cases htext : texts[place]? with
  | none =>
    have hnone : (places.find? fun q => (texts[q]?.map fun text =>
        (q, transform setup text)).any fun e => e.1 == place) = none := by
      rw [List.find?_eq_none]
      intro q _ hq
      obtain ⟨rfl, hsome⟩ := (hat q).mp hq
      rw [htext] at hsome
      cases hsome
    rw [hnone]
    rfl
  | some text =>
    have hplaced := (hat place).mpr ⟨rfl, by rw [htext]; rfl⟩
    obtain ⟨q, hq⟩ : ∃ q, (places.find? fun q => (texts[q]?.map fun text =>
        (q, transform setup text)).any fun e => e.1 == place) = some q :=
      Option.isSome_iff_exists.mp (List.find?_isSome.mpr ⟨place, hplace, hplaced⟩)
    have hfirst := List.find?_some hq
    obtain ⟨rfl, -⟩ := (hat q).mp hfirst
    rw [hq, Option.bind_some, htext]
    rfl

/-- The results are those of the documents, in their order, whatever the order in which the
    documents are come to. -/
theorem transformInOrder_eq_map (setup : Setup) {texts : List Text} {places : List Nat}
    (h : ∀ i < texts.length, i ∈ places) :
    transformInOrder setup places texts = texts.map (transform setup) := by
  have hfound : ∀ i ∈ List.range texts.length,
      ((transformAt setup texts places).find? fun e => e.1 == i).map (·.2) =
        texts[i]?.map (transform setup) :=
    fun i hi => find?_transformAt setup texts (h i (List.mem_range.mp hi))
  have hall : (List.range texts.length).map (fun i => texts[i]?.map (transform setup)) =
      texts.map fun text => some (transform setup text) := by
    apply List.ext_getElem (by simp)
    intro i h₁ h₂
    have hi : i < texts.length := by simpa using h₂
    simp [hi]
  calc transformInOrder setup places texts
      = (List.range texts.length).filterMap fun i => texts[i]?.map (transform setup) :=
        List.filterMap_congr hfound
    _ = (texts.map fun text => some (transform setup text)).filterMap id := by
        rw [← hall, List.filterMap_map]
        rfl
    _ = texts.map (transform setup) := by
        rw [List.filterMap_map]
        exact congrFun List.filterMap_eq_map texts

end Conversion

end TexMark
