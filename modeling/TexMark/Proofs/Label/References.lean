/-
  TexMark/Proofs/Label/References.lean
  ====================================
  **What references show.**  The references of a text are replaced one by one.  Where labels are
  looked up, what a reference shows depends on its command and on the records of the labels alone,
  so that it shows the same in front of its label and behind it:

    * `answers_of_get?` — what a reference shows, and what is reported of it (`Answers`);
    * `foldlM_replaceHit` — a run over the references takes each of them on its own, in every
      mode;
    * `references_of_applyReferences` — what the phase leaves of a text (`Rewritten`), whether or
      not labels are taken out behind it.
-/
import TexMark.Conversion
import TexMark.Proofs.Label.Numbers
import TexMark.Proofs.Passes
import TexMark.Proofs.Templates

namespace TexMark

open Noted

namespace Reference

/-! ### One reference -/

/-- What a reference shows, without the report that it may make. -/
def shown (templates : Table Text) (labels : Table Label.Record) (name label : Text) : Text :=
  match labels.get? label with
  | none => unresolved
  | some r =>
    if name = "nameref" ∧ (r.name?.getD []).isEmpty then unresolved
    else fromRecord templates name r

/-- What a reference makes known when it leads nowhere. -/
def complaint? (labels : Table Label.Record) (name label : Text) : Option Text :=
  match labels.get? label with
  | none => some ('\\' :: name ++ Text.braced label ++ " has no label")
  | some r =>
    if name = "nameref" ∧ (r.name?.getD []).isEmpty then
      some ("\\nameref" ++ Text.braced label ++ " points at a label without a name")
    else none

theorem lookedUp_eq (templates : Table Text) (labels : Table Label.Record) (name label : Text)
    (position : Nat) : lookedUp templates labels name label position =
      ⟨((complaint? labels name label).map fun message =>
          ⟨.undefinedReference, message, position⟩).toList,
        .ok (shown templates labels name label)⟩ := by
  unfold lookedUp complaint? shown
  cases labels.get? label with
  | none => rfl
  | some r =>
    dsimp only
    split <;> rfl

/-- The values that a template may show of a record. -/
def valuesOf (r : Label.Record) : Table Text :=
  [("number", r.number.text), ("label", r.label), ("type", categoryTitle r.category),
    ("name", r.name?.getD []), ("page", unknownPage)]

/-- What a reference **answers** when some records are known: what it shows, and what is
    reported of it. -/
inductive Answers (templates : Table Text) (records : List Label.Record) (name label : Text) :
    Text → Option Text → Prop
  | undefined (hnone : ∀ r ∈ records, r.label ≠ label) :
      Answers templates records name label "(?)"
        (some ('\\' :: name ++ Text.braced label ++ " has no label"))
  | nameless {r : Label.Record}
      (hlast : (records.filter fun r => r.label = label).getLast? = some r)
      (hname : name = "nameref") (hr : r.name?.getD [] = []) :
      Answers templates records name label "(?)"
        (some ("\\nameref" ++ Text.braced label ++ " points at a label without a name"))
  | target {r : Label.Record}
      (hlast : (records.filter fun r => r.label = label).getLast? = some r)
      (hr : name = "nameref" → r.name?.getD [] ≠ []) :
      Answers templates records name label
        ((Template.parts ((templates.get? name).getD "$number")).flatMap
          (Template.Part.filled (valuesOf r).get?)) none

/-- **A reference shows what stands under its label**, if the last record of each name does. -/
theorem answers_of_get? {labels : Table Label.Record} {records : List Label.Record}
    (hlabels : ∀ name, labels.get? name = (records.filter fun r => r.label = name).getLast?)
    (templates : Table Text) (name label : Text) :
    Answers templates records name label (shown templates labels name label)
      (complaint? labels name label) := by
  unfold shown complaint?
  cases hget : labels.get? label with
  | none =>
    have hnone := hlabels label
    rw [hget, eq_comm, List.getLast?_eq_none_iff, List.filter_eq_nil_iff] at hnone
    exact .undefined fun r hr => by simpa using hnone r hr
  | some r =>
    have hlast := (hlabels label).symm.trans hget
    dsimp only
    split
    · rename_i hdead
      exact .nameless hlast hdead.1 (List.isEmpty_iff.mp hdead.2)
    · rename_i hlive
      rw [fromRecord, Template.fill_eq_parts]
      exact .target hlast fun hname hempty => hlive ⟨hname, List.isEmpty_iff.mpr hempty⟩

/-- What stands around the label where labels are not looked up. -/
def around (name : Text) : Text × Text :=
  if name = "eqref" then ("(Equation ", ")")
  else if name = "pageref" then ("page ", "")
  else if name = "nameref" then ("", "")
  else ("[", "]")

theorem placeholder_eq (name label : Text) :
    placeholder name label = (around name).1 ++ label ++ (around name).2 := by
  unfold placeholder around
  split
  · rfl
  · split
    · simp
    · split <;> simp [Text.bracketed]

/-! ### All references of a text -/

/-- The edit of a reference whose label is looked up. -/
def edit (templates : Table Text) (labels : Table Label.Record) (h : Hit Command) : Edit :=
  ⟨h.start, h.stop, shown templates labels h.value.name (Text.strip h.value.label)⟩

/-- What is reported of a reference whose label is looked up. -/
def reportOf? (labels : Table Label.Record) (h : Hit Command) : Option Diagnostic :=
  (complaint? labels h.value.name (Text.strip h.value.label)).map fun message =>
    ⟨.undefinedReference, message, h.start⟩

/-- The edit of a reference whose label is not looked up. -/
def bracket (h : Hit Command) : Edit :=
  ⟨h.start, h.stop,
    (around h.value.name).1 ++ Text.strip h.value.label ++ (around h.value.name).2⟩

section

variable {templates : Table Text} {labels : Table Label.Record} {text : Text}

/-- Edits that take the place of references stand in their order. -/
theorem ordered_map_found {edit : Hit Command → Edit}
    (hedit : ∀ h, (edit h).start = h.start ∧ (edit h).stop = h.stop) :
    Edit.Ordered 0 text.length ((found text).map edit) := by
  constructor
  · intro e he
    obtain ⟨h, hfound, rfl⟩ := List.mem_map.mp he
    have hoccurs := mem_found_iff.mp hfound
    rw [(hedit h).1, (hedit h).2]
    exact ⟨Nat.zero_le _, hoccurs.lt, hoccurs.le⟩
  · refine List.pairwise_map.mpr ((pairwise_found text).imp fun hab => ?_)
    rw [(hedit _).1, (hedit _).2]
    exact hab

/-- **A run over the references** that takes each of them on its own. -/
theorem foldlM_replaceHit {mode : ReferenceMode} {report? : Hit Command → Option Diagnostic}
    {edit : Hit Command → Edit}
    (hstep : ∀ h edits, Scan.isEscaped text h.start = false →
      replaceHit mode templates labels text edits h =
        ⟨(report? h).toList, .ok (edits ++ [edit h])⟩) :
    (Scan.hits command text).foldlM (replaceHit mode templates labels text) [] =
      ⟨(found text).filterMap report?, .ok ((found text).map edit)⟩ := by
  have hrun : ∀ (hs : List (Hit Command)) (edits : List Edit),
      (∀ h ∈ hs, Scan.isEscaped text h.start = false) →
      hs.foldlM (replaceHit mode templates labels text) edits =
        ⟨hs.filterMap report?, .ok (edits ++ hs.map edit)⟩ := by
    intro hs
    induction hs with
    | nil =>
      intro edits _
      rw [List.map_nil, List.append_nil]
      rfl
    | cons h hs ih =>
      intro edits hunescaped
      obtain ⟨hfirst, hrest⟩ := List.forall_mem_cons.mp hunescaped
      rw [List.foldlM_cons, hstep h edits hfirst, bind_of_ok rfl, ih _ hrest]
      cases hreport : report? h <;> simp [hreport]
  have hskip : ∀ edits h, (!Scan.isEscaped text h.start) = false →
      replaceHit mode templates labels text edits h = pure edits :=
    fun _ _ hescaped => if_pos (by simpa using hescaped)
  rw [foldlM_filter hskip]
  exact hrun (found text) [] fun h hmem => (mem_found_iff.mp hmem).unescaped

/-- **Each reference is replaced on its own**, in a mode that replaces any. -/
theorem replaceAll_of_step {mode : ReferenceMode} (hmode : mode ≠ .ignore)
    (report? : Hit Command → Option Diagnostic) (edit : Hit Command → Edit)
    (hedit : ∀ h, (edit h).start = h.start ∧ (edit h).stop = h.stop)
    (hstep : ∀ h edits, Scan.isEscaped text h.start = false →
      replaceHit mode templates labels text edits h =
        ⟨(report? h).toList, .ok (edits ++ [edit h])⟩) :
    replaceAll mode templates labels text = ⟨(found text).filterMap report?,
      .ok (Edit.splice text 0 text.length ((found text).map edit))⟩ := by
  have hreplaces : replaceAll mode templates labels text =
      (Scan.hits command text).foldlM (replaceHit mode templates labels text) [] >>=
        edited text := by
    cases mode with
    | ignore => exact absurd rfl hmode
    | placeholder => rfl
    | resolve => rfl
  rw [hreplaces]
  exact bind_edited_of_eq (foldlM_replaceHit hstep) id (ordered_map_found hedit)

theorem replaceAll_resolve : replaceAll .resolve templates labels text =
    ⟨(found text).filterMap (reportOf? labels),
      .ok (Edit.splice text 0 text.length ((found text).map (edit templates labels)))⟩ := by
  refine replaceAll_of_step (by decide) (reportOf? labels) (edit templates labels)
    (fun _ => ⟨rfl, rfl⟩) fun h edits hunescaped => ?_
  rw [replaceHit, if_neg (by simp [hunescaped])]
  dsimp only
  rw [lookedUp_eq, bind_pure_of_eq rfl]
  rfl

theorem replaceAll_placeholder : replaceAll .placeholder templates labels text =
    ⟨[], .ok (Edit.splice text 0 text.length ((found text).map bracket))⟩ := by
  rw [← List.filterMap_none (found text)]
  refine replaceAll_of_step (by decide) (fun _ => none) bracket (fun _ => ⟨rfl, rfl⟩)
    fun h edits hunescaped => ?_
  rw [replaceHit, if_neg (by simp [hunescaped])]
  dsimp only
  rw [placeholder_eq]
  rfl

end

end Reference

/-! ### The phase -/

/-- What the references of a text are **rewritten** to: what is reported, the text in which they
    are replaced, and the labels that are known then. -/
inductive Reference.Rewritten (config : Config) (text : Text) (references : List (Hit Command)) :
    List Diagnostic → Text → Table Label.Record → Prop
  | kept (hmode : config.referenceMode = .ignore) : Rewritten config text references [] text []
  /-- Their labels are shown as they are written. -/
  | bracketed (hmode : config.referenceMode = .placeholder) :
      Rewritten config text references []
        (Edit.splice text 0 text.length (references.map fun h => ⟨h.start, h.stop,
          (around h.value.name).1 ++ Text.strip h.value.label ++ (around h.value.name).2⟩)) []
  /-- They are answered from the records of all labels, wherever these stand. -/
  | answered (hmode : config.referenceMode = .resolve) {labels : List (Hit Text)}
      {records : List Label.Record} {table : Table Label.Record} {shown : Text → Text → Text}
      {complaint? : Text → Text → Option Text}
      (hlabels : ∀ h, h ∈ labels ↔ Scan.Occurs Label.command text h)
      (hordered : labels.Pairwise fun a b => a.stop ≤ b.start)
      (hrecords : Label.Numbering config.labelBase text labels records)
      (htable : ∀ name, table.get? name = (records.filter fun r => r.label = name).getLast?)
      (hanswers : ∀ name label, Answers config.referenceTemplates records name label
        (shown name label) (complaint? name label)) :
      Rewritten config text references
        ((labels.filter fun h => ∃ e ∈ labels, e.start < h.start ∧
            Text.strip e.value = Text.strip h.value).map Label.duplicate ++
          references.filterMap fun h =>
            (complaint? h.value.name (Text.strip h.value.label)).map fun message =>
              ⟨.undefinedReference, message, h.start⟩)
        (Edit.splice text 0 text.length (references.map fun h =>
          ⟨h.start, h.stop, shown h.value.name (Text.strip h.value.label)⟩)) table

namespace Phase

open Reference

section

variable {config : Config} {text replaced : Text} {state : State} {notes : List Diagnostic}

theorem applyReferences_of_ne_resolve (hmode : config.referenceMode ≠ .resolve)
    (hreplaced : replaceAll config.referenceMode config.referenceTemplates (state.labels.merge [])
      text = ⟨notes, .ok replaced⟩) :
    applyReferences config text state = ⟨notes,
      .ok (if config.removeLabels then Label.removeAll replaced else replaced, state)⟩ := by
  rw [applyReferences, if_neg hmode, pure_bind]
  exact bind_pure_of_eq hreplaced _

theorem applyReferences_of_resolve (hmode : config.referenceMode = .resolve)
    {found known : Table Label.Record} {duplicates : List Diagnostic}
    (hfound : Label.collect config.labelBase text = ⟨duplicates, .ok found⟩)
    (hknown : state.labels.merge found = known)
    (hreplaced : replaceAll .resolve config.referenceTemplates known text =
      ⟨notes, .ok replaced⟩) :
    applyReferences config text state = ⟨duplicates ++ notes,
      .ok (if config.removeLabels then Label.removeAll replaced else replaced,
        { state with labels := known })⟩ := by
  rw [applyReferences, if_pos hmode, hfound, bind_of_ok rfl]
  dsimp only
  rw [hknown, hmode, bind_pure_of_eq hreplaced]

end

/-- **What the phase of the references leaves of a text**, with no labels known before.  Each
    reference stays, or shows its label as it is written, or shows what the last label of that name
    stands for, in front of that label and behind it.  The labels are numbered before any of them
    is taken out. -/
theorem references_of_applyReferences (config : Config) (text : Text) (state : State) :
    ∃ references notes replaced table,
      (∀ h, h ∈ references ↔ Scan.Occurs Reference.command text h) ∧
      (references.Pairwise fun a b => a.stop ≤ b.start) ∧
      Rewritten config text references notes replaced table ∧
      ∀ remove, applyReferences { config with removeLabels := remove } text
          { state with labels := [] } =
        ⟨notes, .ok (if remove then Label.removeAll replaced else replaced,
          { state with labels := table })⟩ := by
  cases hmode : config.referenceMode with
  | ignore =>
    exact ⟨found text, [], text, [], fun h => mem_found_iff, pairwise_found text, .kept hmode,
      fun remove => applyReferences_of_ne_resolve nofun rfl⟩
  | placeholder =>
    exact ⟨found text, [], _, [], fun h => mem_found_iff, pairwise_found text, .bracketed hmode,
      fun remove => applyReferences_of_ne_resolve nofun replaceAll_placeholder⟩
  | resolve =>
    let records := Label.recordsFrom config.labelBase text [] (Label.found text)
    have hcollect := Label.collect_eq config.labelBase text
    rw [Label.duplicatesFrom_found] at hcollect
    have hget := Label.get?_tableOf records
    have hmerge : Table.merge [] (Label.tableOf records) = Label.tableOf records :=
      Table.merge_eq_append (Label.nodup_tableOf records)
    exact ⟨found text, _, _, Label.tableOf records, fun h => mem_found_iff, pairwise_found text,
      .answered hmode (fun h => Label.mem_found_iff) (Label.pairwise_found text)
        (Label.numbering_recordsFrom config.labelBase text) hget
        (answers_of_get? hget config.referenceTemplates),
      fun remove => applyReferences_of_resolve rfl hcollect hmerge replaceAll_resolve⟩

end Phase

end TexMark
