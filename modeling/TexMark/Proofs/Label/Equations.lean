/-
  TexMark/Proofs/Label/Equations.lean
  ===================================
  **Numbers of equations, shown and referred to.**  Two counters run through a conversion.
  The environments count the equations that they show with a number; the references count the
  labels, by category.  Neither looks at the other:

    * `edit_eqref` — an equation's label is referred to by its place among the labels of
      equations;
    * `eqref_of_conversion` — the two counts of a conversion, side by side;
    * `references_of_unlabelled` — they part where an equation has a number and no label.
-/
import TexMark.Proofs.Environment.Tags
import TexMark.Proofs.Label.References

namespace TexMark

open Noted

/-! ### Labels of equations -/

namespace Label

/-- A label that names an equation, under a name of its own, behind some earlier labels. -/
structure NamesEquation (text : Text) (earlier : List (Hit Text)) (h : Hit Text) : Prop where
  found : ∃ later, found text = earlier ++ h :: later ∧
    ∀ l ∈ earlier ++ later, labelName l ≠ labelName h
  category : category text h = "equation"
  /-- No number stands on what the label names: it is no callout. -/
  unshown : shownNumber? (nearest? text h.start) = none

/-- How many of some labels name equations. -/
def equationsIn (text : Text) (labels : List (Hit Text)) : Nat :=
  labels.countP fun l => category text l == "equation"

theorem recordOf_of_equation {text : Text} {earlier : List (Hit Text)} {h : Hit Text}
    (hequation : NamesEquation text earlier h) :
    (recordOf 1 text earlier h).number.text = Text.ofNat (equationsIn text earlier + 1) := by
  have hnumber : numberOf 1 text earlier h = .counted (1 + equationsIn text earlier) := by
    unfold numberOf
    rw [hequation.unshown, hequation.category]
    rfl
  have hpositive : ¬ ((1 : Int) + equationsIn text earlier < 0) := by omega
  have hsize : ((1 : Int) + equationsIn text earlier).natAbs = equationsIn text earlier + 1 := by
    omega
  rw [recordOf, hnumber]
  simp only [Number.text, Text.ofInt, if_neg hpositive, hsize]

end Label

/-- What a reference to a formula by number shows. -/
def inParentheses (number : Nat) : Text := '(' :: Text.ofNat number ++ ")"

/-- An equation's label is referred to by its place among the labels of equations. -/
theorem Reference.edit_eqref {templates : Table Text} {labels : Table Label.Record} {text : Text}
    (htemplate : templates.get? "eqref" = some ("($number)" : Text)) {earlier : List (Hit Text)}
    {h : Hit Text} (hequation : Label.NamesEquation text earlier h)
    (hrecord : labels.get? (Label.labelName h) = some (Label.recordOf 1 text earlier h))
    {r : Hit Command} (hname : r.value.name = "eqref")
    (hlabel : Text.strip r.value.label = Label.labelName h) :
    edit templates labels r =
      ⟨r.start, r.stop, inParentheses (Label.equationsIn text earlier + 1)⟩ := by
  have hfill : ∀ number rest, Template.fill "($number)" (("number", number) :: rest) =
      '(' :: number ++ ")" := fun _ _ => rfl
  have hother : ("eqref" : Text) ≠ "nameref" := by decide
  rw [edit, hlabel, hname, shown, hrecord]
  dsimp only
  rw [if_neg fun h => hother h.1, fromRecord, htemplate, Option.getD_some, hfill,
    Label.recordOf_of_equation hequation]
  rfl

/-- The edits of a text refer to the labels of equations in turn: each such label by the number
    of those in front of it, and one more. -/
def Reference.EqrefsInTurn (text : Text) (edits : List Edit) : Prop :=
  ∀ earlier h r number, Label.NamesEquation text earlier h → r ∈ found text →
    r.value.name = "eqref" → Text.strip r.value.label = Label.labelName h →
    (⟨r.start, r.stop, inParentheses number⟩ ∈ edits ↔
      number = Label.equationsIn text earlier + 1)

theorem Reference.eqrefsInTurn {templates : Table Text} {labels : Table Label.Record} {text : Text}
    (htemplate : templates.get? "eqref" = some ("($number)" : Text))
    (hlabels : ∀ earlier h later, Label.found text = earlier ++ h :: later →
      (∀ l ∈ later, Label.labelName l ≠ Label.labelName h) →
      labels.get? (Label.labelName h) = some (Label.recordOf 1 text earlier h)) :
    EqrefsInTurn text ((found text).map (edit templates labels)) := by
  intro earlier h r number hequation hr hname hlabel
  obtain ⟨later, hfound, hother⟩ := hequation.found
  have hrecord := hlabels earlier h later hfound fun l hl => hother l (List.mem_append_right _ hl)
  have hedit := edit_eqref htemplate hequation hrecord hname hlabel
  constructor
  · intro hmem
    obtain ⟨r', hr', heq⟩ := List.mem_map.mp hmem
    -- An edit tells its command by where it starts.
    have hsame : r' = r := eq_of_start hr' hr (congrArg Edit.start heq)
    rw [hsame, hedit] at heq
    have hshown := congrArg Edit.replacement heq
    simp only [inParentheses, List.cons_append, List.cons.injEq, true_and,
      List.append_cancel_right_eq] at hshown
    exact (Text.ofNat_injective hshown).symm
  · rintro rfl
    rw [← hedit]
    exact List.mem_map_of_mem hr

/-! ### Conversions -/

namespace Conversion

theorem trace_of_forward {setup : Setup} (hforward : setup.direction = .forward) (text : Text) :
    let macros := runPhase setup .macros text .empty
    let environments := runPhase setup .environments macros.1.text macros.2
    let references := runPhase setup .references environments.1.text environments.2
    ∃ later, (trace setup text).1 = macros.1 :: environments.1 :: references.1 :: later := by
  intro macros environments references
  refine ⟨(runPhases setup [.citations, .delimiters, .cleanup] references.1.text references.2).1, ?_⟩
  rw [trace, hforward]
  rfl

/-- The macros know nothing of labels, theorems and equations. -/
theorem state_of_macros (setup : Setup) (text : Text) (state : State) :
    ∃ macros, (runPhase setup .macros text state).2 = { state with macros := macros } := by
  unfold runPhase
  split
  · exact ⟨state.macros, rfl⟩
  · dsimp only
    split
    · rename_i text' state' hresult
      obtain ⟨⟨body, defined⟩, -, hbody⟩ := of_result_bind hresult
      obtain ⟨expanded, -, hexpanded⟩ := of_result_bind hbody
      obtain ⟨shown, -, hshown⟩ := of_result_bind hexpanded
      cases hshown
      exact ⟨_, rfl⟩
    · exact ⟨state.macros, rfl⟩

theorem runPhase_of_ok {setup : Setup} (phase : Phase) {text text' : Text} (state : State)
    {state' : State} (henabled : phase.enabled setup.config)
    (hresult : (phase.apply setup text state).result = .ok (text', state')) :
    (runPhase setup phase text state).1.text = text' ∧
      (runPhase setup phase text state).2 = state' := by
  unfold runPhase
  rw [if_neg (by simp [henabled])]
  dsimp only
  rw [hresult]
  exact ⟨rfl, rfl⟩

theorem result_applyEnvironments {setup : Setup} {text : Text} {state : State}
    {resolved : Environment.Resolved}
    (h : (Environment.resolve (Phase.environmentSettings setup) state.register state.equations
      text).result = .ok resolved) :
    (Phase.applyEnvironments setup text state).result = .ok
      (resolved.text, { state with
        register := resolved.register
        equations := resolved.equations }) := by
  unfold Phase.applyEnvironments
  rw [bind_of_ok h]
  rfl

/-- The references of a text are replaced by the labels that are found in it. -/
theorem result_applyReferences {config : Config} (hmode : config.referenceMode = .resolve)
    {text : Text} (state : State) {labels : Table Label.Record}
    (hlabels : (Label.collect config.labelBase text).result = .ok labels) :
    let known := state.labels.merge labels
    let replaced := Edit.splice text 0 text.length
      ((Reference.found text).map (Reference.edit config.referenceTemplates known))
    (Phase.applyReferences config text state).result = .ok
      (if config.removeLabels then Label.removeAll replaced else replaced,
        { state with labels := known }) := by
  have hcollect : Label.collect config.labelBase text = ⟨_, .ok labels⟩ := Noted.ext rfl hlabels
  rw [Phase.applyReferences_of_resolve hmode hcollect rfl Reference.replaceAll_resolve]

/-- What the references of a conversion leave, from what the phases before them have found. -/
theorem steps_of_forward (setup : Setup) {text : Text} {macros : Step} {known : Table Macro}
    {resolved : Environment.Resolved} (hforward : setup.direction = .forward)
    (henabled : setup.config.convertEnvironments = true)
    (hmode : setup.config.referenceMode = .resolve)
    (hmacros : runPhase setup .macros text .empty = (macros, ⟨known, [], .empty, 0⟩))
    (hresolved : (Environment.resolve (Phase.environmentSettings setup) .empty 0
      macros.text).result = .ok resolved) :
    ∃ environments references later labels,
      (trace setup text).1 = macros :: environments :: references :: later ∧
      environments.text = resolved.text ∧
      (∀ earlier h later, Label.found resolved.text = earlier ++ h :: later →
        (∀ l ∈ later, Label.labelName l ≠ Label.labelName h) →
        labels.get? (Label.labelName h) =
          some (Label.recordOf setup.config.labelBase resolved.text earlier h)) ∧
      let replaced := Edit.splice resolved.text 0 resolved.text.length
        ((Reference.found resolved.text).map
          (Reference.edit setup.config.referenceTemplates labels))
      references.text =
        if setup.config.removeLabels then Label.removeAll replaced else replaced := by
  obtain ⟨later, htrace⟩ := trace_of_forward hforward text
  obtain ⟨labels, hlabels⟩ := Label.exists_result_collect setup.config.labelBase resolved.text
  rw [hmacros] at htrace
  obtain ⟨htext, hstate⟩ := runPhase_of_ok .environments ⟨known, [], .empty, 0⟩ henabled
    (result_applyEnvironments hresolved)
  have hreplaced := (runPhase_of_ok .references _ rfl
    (result_applyReferences hmode ⟨known, [], resolved.register, resolved.equations⟩ hlabels)).1
  dsimp only at htrace
  rw [htext, hstate] at htrace
  refine ⟨_, _, later, Table.merge [] labels, htrace, htext, ?_, hreplaced⟩
  intro earlier h later hfound hlast
  rw [Table.get?_merge [] (Label.nodup_collect hlabels), Label.get?_collect hlabels hfound hlast]
  rfl

/-- **Shown and referred to.**  In a conversion that looks references up and counts labels from
    one, the k-th equation that gets a number is shown with the number k, and the label of an
    equation is referred to by its place among the labels of equations.  So the two numbers agree
    if and only if as many labels of equations come before the label as numbered equations before
    its own. -/
theorem eqref_of_conversion (setup : Setup) (text : Text) (hforward : setup.direction = .forward)
    (henabled : setup.config.convertEnvironments = true)
    (hmode : setup.config.referenceMode = .resolve) (hbase : setup.config.labelBase = 1)
    (htemplate : setup.config.referenceTemplates.get? "eqref" = some ("($number)" : Text)) :
    ∃ macros environments references later resolved edits,
      (trace setup text).1 = macros :: environments :: references :: later ∧
      (Environment.resolve (Phase.environmentSettings setup) .empty 0 macros.text).result =
        .ok resolved ∧
      environments.text = resolved.text ∧
      (let replaced := Edit.splice resolved.text 0 resolved.text.length edits
       references.text =
        if setup.config.removeLabels then Label.removeAll replaced else replaced) ∧
      Environment.TagsInTurn (Phase.environmentSettings setup) .empty macros.text ∧
      Reference.EqrefsInTurn resolved.text edits := by
  obtain ⟨known, hknown⟩ := state_of_macros setup text .empty
  obtain ⟨macros, hmacros⟩ : ∃ macros, runPhase setup .macros text .empty =
      (macros, ⟨known, [], .empty, 0⟩) := ⟨_, Prod.ext rfl hknown⟩
  obtain ⟨resolved, hresolved⟩ := Environment.exists_result_resolve
    (Phase.environmentSettings setup) .empty 0 macros.text
  obtain ⟨environments, references, later, labels, htrace, htext, hlabels, hreplaced⟩ :=
    steps_of_forward setup hforward henabled hmode hmacros hresolved
  rw [hbase] at hlabels
  exact ⟨macros, environments, references, later, resolved, _, htrace, hresolved, htext, hreplaced,
    Environment.tagsInTurn _ _ _, Reference.eqrefsInTurn htemplate hlabels⟩

/-! ### A number without a label -/

/-- Two equations with numbers, of which the second has a label. -/
def unlabelledFirst : Text :=
  "\\begin{equation}a\\end{equation}\n" ++
    "\\begin{equation}b\\label{x}\\end{equation}\nSee \\eqref{x}."

/-- The same with the numbers that are shown. -/
def unlabelledNumbered : Text :=
  "$$\na \\tag{1}\n$$\n$$\nb\\label{x} \\tag{2}\n$$\nSee \\eqref{x}."

/-- A conversion that numbers equations and leaves macros alone. -/
def numbering : Setup :=
  .ofConfig { Config.default with numberEquations := true, expandMacros := false } .forward

theorem resolve_unlabelledFirst :
    (Environment.resolve (Phase.environmentSettings numbering) .empty 0 unlabelledFirst).result =
      .ok ⟨unlabelledNumbered, .empty, 2⟩ := by
  rw [Environment.resolve_eq_run]
  rfl

theorem found_unlabelledNumbered :
    Reference.found unlabelledNumbered = [⟨45, 54, "eqref", "x"⟩] := rfl

theorem namesEquation_unlabelledNumbered :
    Label.NamesEquation unlabelledNumbered [] ⟨20, 29, "x"⟩ := by
  have hnearest : Label.nearest? unlabelledNumbered 20 = some .formula := by
    decide +kernel
  refine ⟨⟨[], rfl, nofun⟩, ?_, ?_⟩
  · rw [Label.category, Label.classify, hnearest]
    rfl
  · rw [hnearest]
    rfl

theorem eqref_of_conversion_unlabelled :
    ∃ macros environments references later edits,
      (trace numbering unlabelledFirst).1 = macros :: environments :: references :: later ∧
      environments.text = unlabelledNumbered ∧
      references.text = Edit.splice unlabelledNumbered 0 unlabelledNumbered.length edits ∧
      ⟨45, 54, "(1)"⟩ ∈ edits := by
  obtain ⟨macros, environments, references, later, resolved, edits, htrace, hresolved, htext,
    hreplaced, -, heqrefs⟩ := eqref_of_conversion numbering unlabelledFirst rfl rfl rfl rfl rfl
  have hmacros : unlabelledFirst = macros.text := by
    have hfirst := congrArg (fun steps => steps.head?.map (·.text)) htrace
    exact Option.some.inj hfirst
  rw [← hmacros, resolve_unlabelledFirst] at hresolved
  obtain rfl := Except.ok.inj hresolved
  have hfound : ⟨45, 54, "eqref", "x"⟩ ∈ Reference.found unlabelledNumbered := by
    rw [found_unlabelledNumbered]
    exact List.mem_singleton_self _
  have hmem := (heqrefs [] _ _ 1 namesEquation_unlabelledNumbered hfound rfl rfl).mpr rfl
  exact ⟨macros, environments, references, later, edits, htrace, htext, hreplaced, hmem⟩

/-- **The counts part** where an equation has a number and no label: the second equation is
    shown with the number 2 and referred to as 1. -/
theorem references_of_unlabelled :
    ∃ macros environments references later,
      (trace numbering unlabelledFirst).1 = macros :: environments :: references :: later ∧
      environments.text = unlabelledNumbered ∧
      references.text =
        "$$\na \\tag{1}\n$$\n$$\nb\\label{x} \\tag{2}\n$$\nSee (1)." := by
  have hmacros : runPhase numbering .macros unlabelledFirst .empty =
      (⟨.macros, false, unlabelledFirst, []⟩, .empty) := rfl
  obtain ⟨environments, references, later, labels, htrace, htext, hlabels, hreplaced⟩ :=
    steps_of_forward numbering rfl rfl rfl hmacros resolve_unlabelledFirst
  obtain ⟨behind, hfound, hother⟩ := namesEquation_unlabelledNumbered.found
  have hrecord := hlabels [] _ behind hfound fun l hl => hother l (List.mem_append_right _ hl)
  have hedit : Reference.edit numbering.config.referenceTemplates labels
      ⟨45, 54, "eqref", "x"⟩ = ⟨45, 54, inParentheses 1⟩ :=
    Reference.edit_eqref rfl namesEquation_unlabelledNumbered hrecord rfl rfl
  rw [found_unlabelledNumbered, List.map_singleton, hedit] at hreplaced
  exact ⟨_, environments, references, later, htrace, htext, hreplaced⟩

end Conversion

end TexMark
