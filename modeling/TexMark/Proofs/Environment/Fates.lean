/-
  TexMark/Proofs/Environment/Fates.lean
  =====================================
  **The scan follows the nesting.**  Behind every event the open frames are those of the open
  environments of the nesting, the edits are the outcomes of their forests, and what has been
  reported is what the entries of the log say:

    * `Nesting.progress` — the scan that a nesting stands for;
    * `result_advance`, `notes_advance` — one event, and `run_of_reached` — all of them;
    * `fates_of_environments` — what becomes of the beginnings and the ends of a document,
      what is reported of them, and what is converted.
-/
import TexMark.Proofs.Environment.Nesting

namespace TexMark.Environment

open Noted

/-! ### Reports -/

/-- The reports of an end: of each environment that it unwinds but the one of its own name, or
    of the end itself if it is stray. -/
def Fate.reports (m : Marker) : Fate → List Diagnostic
  | converts _ => []
  | unwinds above _ => above.map fun a =>
      ⟨.environmentMismatch,
        Markup.beginMarker a.name ++ " closed by " ++ Markup.endMarker m.name, a.start⟩
  | strays none =>
    [⟨.environmentMismatch,
      Markup.endMarker m.name ++ " found where " ++ "no open environment" ++ " was expected",
      m.start⟩]
  | strays (some inner) =>
    [⟨.environmentMismatch,
      Markup.endMarker m.name ++ " found where " ++ Markup.endMarker inner ++ " was expected",
      m.start⟩]

/-- The reports of a beginning or an end. -/
def Entry.reports (allowed : Text → Text → Bool) : Entry → List Diagnostic
  | begins _ none => []
  | begins m (some outer) =>
    if allowed outer m.name then []
    else [⟨.invalidNesting, m.name ++ " cannot be nested inside " ++ outer, m.start⟩]
  | ends m fate => fate.reports m

/-- The report of an environment that the text never closes. -/
def Opened.report (o : Opened) : Diagnostic :=
  ⟨.unmatchedEnvironment, Markup.beginMarker o.marker.name ++ " is never closed", o.marker.start⟩

/-- The reports of structure that does not fit: all but those of environments without a
    converter. -/
def structural (ds : List Diagnostic) : List Diagnostic :=
  ds.filter fun d => d.kind ≠ .unknownEnvironment

theorem structural_append (ds more : List Diagnostic) :
    structural (ds ++ more) = structural ds ++ structural more := List.filter_append _ _

theorem structural_of_forall_ne {ds : List Diagnostic}
    (h : ∀ d ∈ ds, d.kind ≠ .unknownEnvironment) : structural ds = ds :=
  List.filter_eq_self.mpr fun d hd => decide_eq_true (h d hd)

theorem structural_of_forall_eq {ds : List Diagnostic}
    (h : ∀ d ∈ ds, d.kind = .unknownEnvironment) : structural ds = [] :=
  List.filter_eq_nil_iff.mpr fun d hd => by simp [h d hd]

/-! ### The scan of a nesting -/

section

variable (settings : Settings) (text : Text)

/-- The scan with frames for open environments, and with what stands in them. -/
def reopened : List Opened → Progress → Progress
  | [], s => s
  | o :: os, s =>
    let t := (reopened os s).opened settings text o.marker
    let r := o.inner.outcome settings text t.counters
    t.behind r.1 r.2

theorem reopened_append (above outer : List Opened) (s : Progress) :
    reopened settings text (above ++ outer) s =
      reopened settings text above (reopened settings text outer s) := by
  induction above with
  | nil => rfl
  | cons o above ih => simp [reopened, ih]

/-- The frames of open environments, and the outcome of giving them up. -/
theorem exists_frames (above : List Opened) (s : Progress) :
    ∃ frames : List Frame,
      reopened settings text above s =
        { s with
          stack := frames ++ s.stack
          register := (reopened settings text above s).register
          equations := (reopened settings text above s).equations } ∧
      frames.map (fun f => (f.name, f.start)) =
        above.map (fun o => (o.marker.name, o.marker.start)) ∧
      (givenUp above).outcome settings text s.counters =
        (surrendered frames, (reopened settings text above s).counters) := by
  induction above with
  | nil => exact ⟨[], rfl, rfl, rfl⟩
  | cons o above ih =>
    obtain ⟨frames, hs, hplaces, houtcome⟩ := ih
    generalize ht : reopened settings text above s = t at hs houtcome
    have hreopened : reopened settings text (o :: above) s =
        (t.opened settings text o.marker).behind
          (o.inner.outcome settings text (t.opened settings text o.marker).counters).1
          (o.inner.outcome settings text (t.opened settings text o.marker).counters).2 := by
      rw [← ht]
      rfl
    rw [hreopened]
    generalize hr : o.inner.outcome settings text (t.opened settings text o.marker).counters = r
    let frame : Frame :=
      { (frameAt settings t.register text o.marker.name o.marker.start o.marker.stop).1 with
        edits := r.1 }
    refine ⟨frame :: frames, ?_, ?_, ?_⟩
    · rw [hs]
      simp [Progress.behind, Progress.add, addEdits, Progress.opened, frame]
    · simp [frame, hplaces]
    · have hcounters : t.counters.after settings text o.marker.opening =
          (t.opened settings text o.marker).counters := rfl
      rw [givenUp, Forest.outcome_append, houtcome, surrendered_cons, Forest.outcome_leaf,
        hcounters, hr]
      rfl

/-- The scan behind a forest. -/
def Progress.past (s : Progress) (forest : Forest) : Progress :=
  s.behind (forest.outcome settings text s.counters).1 (forest.outcome settings text s.counters).2

theorem Progress.past_append (s : Progress) (a b : Forest) :
    (s.past settings text a).past settings text b = s.past settings text (a.append b) := by
  simp only [past, counters_behind, behind_behind, Forest.outcome_append]

/-- An end that converts nothing leaves nothing. -/
theorem Progress.past_closing (s : Progress) (m : Marker) :
    s.past settings text (.leaf m.closing .nil) = s := by
  rw [past, Forest.outcome_leaf]
  exact s.behind_nil

/-- The scan that a nesting stands for, with the counters at the start of the text. -/
def Nesting.progress (n : Nesting) (register : TheoremRegister) (equations : Nat) : Progress :=
  reopened settings text n.opened ((Progress.start register equations).past settings text n.outside)

variable (register : TheoremRegister) (equations : Nat)

theorem Nesting.progress_append (n : Nesting) (more : Forest) :
    (n.append more).progress settings text register equations =
      (n.progress settings text register equations).past settings text more := by
  obtain ⟨opened, outside, log⟩ := n
  cases opened with
  | nil => exact (Progress.past_append settings text _ _ _).symm
  | cons o os => exact (Progress.past_append settings text _ _ _).symm

theorem Nesting.progress_enter (n : Nesting) (entry : Entry) :
    (n.enter entry).progress settings text register equations =
      n.progress settings text register equations := rfl

/-- The frames are those of the open environments. -/
theorem Nesting.stack_progress (n : Nesting) :
    (n.progress settings text register equations).stack.map (fun f => (f.name, f.start)) =
      n.opened.map fun o => (o.marker.name, o.marker.start) := by
  obtain ⟨frames, hs, hplaces, -⟩ := exists_frames settings text n.opened
    ((Progress.start register equations).past settings text n.outside)
  rw [Nesting.progress, hs, ← hplaces]
  exact congrArg (List.map _) (List.append_nil frames)

theorem Nesting.innermost?_progress (n : Nesting) :
    (n.progress settings text register equations).innermost? = n.innermost? := by
  have h := congrArg (fun places => (places.map Prod.fst).head?)
    (n.stack_progress settings text register equations)
  simpa [Function.comp_def, Progress.innermost?, Nesting.innermost?] using h

/-- No frame has a name that no open environment has. -/
theorem Nesting.forall_stack_progress {n : Nesting} {name : Text}
    (h : ∀ o ∈ n.opened, o.marker.name ≠ name) :
    ∀ f ∈ (n.progress settings text register equations).stack, f.name ≠ name := by
  intro f hf
  have hplace : (f.name, f.start) ∈ n.opened.map fun o => (o.marker.name, o.marker.start) := by
    rw [← n.stack_progress settings text register equations]
    exact List.mem_map.mpr ⟨f, hf, rfl⟩
  obtain ⟨o, ho, heq⟩ := List.mem_map.mp hplace
  rw [← (Prod.mk.inj heq).1]
  exact h o ho

/-! ### One event -/

variable (allowed : Text → Text → Bool)

/-- The end of the innermost environment, from the scan around it. -/
theorem result_advance_environment (s : Progress) {opening closing : Marker}
    (hname : closing.name = opening.name) (inner : Forest) :
    (advance allowed settings text ((s.opened settings text opening).past settings text inner)
      closing.closing).result =
        .ok (s.past settings text (.environment opening closing inner .nil)) := by
  have h := congrArg Noted.result (advance_environment allowed settings text s hname inner)
  rw [advance_opening, bind_assoc, bind_of_ok (result_reportNesting _ _ _ _), pure_bind] at h
  dsimp only at h
  rw [bind_of_ok (Forest.result_edits settings text allowed _ inner _),
    bind_of_ok (Forest.result_edits settings text allowed _ _ _)] at h
  exact h

/-- The frames that the end of an environment unwinds. -/
theorem exists_stack_unwinds {n : Nesting} {above outer : List Opened} {o : Opened} {name : Text}
    (hopened : n.opened = above ++ o :: outer) (hne : above ≠ [])
    (habove : ∀ a ∈ above, a.marker.name ≠ name) (hname : o.marker.name = name) :
    let s := n.progress settings text register equations
    let t := ({ n with opened := outer } : Nesting).progress settings text register equations
    ∃ (frames : List Frame) (frame : Frame), s.stack = frames ++ frame :: t.stack ∧
      frames.map (fun f => (f.name, f.start)) =
        above.map (fun o => (o.marker.name, o.marker.start)) ∧
      frames ≠ [] ∧ (∀ f ∈ frames, f.name ≠ name) ∧ frame.name = name ∧
      ({ s with stack := t.stack } : Progress).add (surrendered (frames ++ [frame])) =
        t.past settings text (givenUp (above ++ [o])) := by
  intro s t
  have hs : s = reopened settings text (above ++ [o]) t := by
    have hopened' : n.opened = above ++ [o] ++ outer := by simpa using hopened
    change reopened settings text n.opened _ = _
    rw [hopened', reopened_append]
    rfl
  obtain ⟨frames, hframes, hplaces, houtcome⟩ := exists_frames settings text (above ++ [o]) t
  rw [← hs] at hframes houtcome
  rw [List.map_append] at hplaces
  obtain ⟨frames, last, rfl, hinner, hlast⟩ := List.map_eq_append_iff.mp hplaces
  obtain ⟨frame, rest, rfl, hframe, hrest⟩ := List.map_eq_cons_iff.mp hlast
  rw [List.map_eq_nil_iff.mp hrest] at hframes houtcome
  refine ⟨frames, frame, ?_, hinner, ?_, ?_, (Prod.mk.inj hframe).1.trans hname, ?_⟩
  · rw [hframes]
    simp
  · rintro rfl
    exact hne (List.map_eq_nil_iff.mp hinner.symm)
  · intro f hf
    obtain ⟨a, ha, heq⟩ := List.mem_map.mp (hinner ▸ List.mem_map_of_mem hf)
    rw [← (Prod.mk.inj heq).1]
    exact habove a ha
  · rw [Progress.past, houtcome, hframes]
    rfl

/-- **One event** takes the scan of a nesting to that of the next. -/
theorem result_advance {n n' : Nesting} {e : Hit Event} (h : n.Takes e n') :
    (advance allowed settings text (n.progress settings text register equations) e).result =
      .ok (n'.progress settings text register equations) := by
  cases h with
  | passes he =>
    rw [advance_leaf allowed settings text _ he, Nesting.progress_append, Progress.past,
      Forest.outcome_leaf]
    simp
  | begins m he =>
    rw [he, advance_opening, bind_of_ok (result_reportNesting _ _ _ _)]
    exact congrArg Except.ok (Progress.behind_nil _).symm
  | converts m he o outer hopened hname =>
    have hs : n.progress settings text register equations =
        ((({ n with opened := outer } : Nesting).progress settings text register
          equations).opened settings text o.marker).past settings text o.inner := by
      rw [Nesting.progress, hopened]
      rfl
    rw [he, hs, result_advance_environment settings text allowed _ hname.symm,
      ← Nesting.progress_append, Nesting.progress_enter]
  | unwinds m he above o outer hopened hne habove hname =>
    subst he
    obtain ⟨frames, frame, hstack, -, hframes, hother, hframe, hadd⟩ :=
      exists_stack_unwinds settings text register equations hopened hne habove hname
    refine (result_close_unwind hstack hframes hother hframe).trans ?_
    rw [hadd, Nesting.progress_enter, Nesting.progress_append, ← Progress.past_append,
      Progress.past_closing]
  | strays m he hnone =>
    subst he
    refine (result_close_stray
      (n.forall_stack_progress settings text register equations hnone)).trans ?_
    rw [Nesting.progress_enter, Nesting.progress_append, Progress.past_closing]

theorem notes_reportNesting (outer? : Option Text) (m : Marker) :
    (reportNesting allowed outer? m.name m.start).notes =
      (Entry.begins m outer?).reports allowed := by
  cases outer? with
  | none => rfl
  | some outer =>
    rw [reportNesting, Entry.reports]
    split <;> rfl

theorem notes_reportStray (innermost? : Option Text) (m : Marker) :
    (reportStray innermost? m.name m.start).notes = (Fate.strays innermost?).reports m := by
  cases innermost? <;> rfl

theorem kind_of_mem_reports {entry : Entry} {d : Diagnostic} (h : d ∈ entry.reports allowed) :
    d.kind = .invalidNesting ∨ d.kind = .environmentMismatch := by
  cases entry with
  | begins m outer? =>
    cases outer? with
    | none => simp [Entry.reports] at h
    | some outer =>
      rw [Entry.reports] at h
      split at h
      · simp at h
      · rw [List.mem_singleton.mp h]
        exact .inl rfl
  | ends m fate =>
    right
    cases fate with
    | converts opening => simp [Entry.reports, Fate.reports] at h
    | unwinds above opening =>
      obtain ⟨a, -, rfl⟩ := List.mem_map.mp h
      rfl
    | strays innermost? =>
      cases innermost? <;> rw [List.mem_singleton.mp h]

theorem structural_reports (entry : Entry) :
    structural (entry.reports allowed) = entry.reports allowed := by
  apply structural_of_forall_ne
  intro d hd
  rcases kind_of_mem_reports allowed hd with h | h <;> rw [h] <;> exact nofun

theorem Fate.exists_report_strays (m : Marker) (innermost? : Option Text) :
    ∃ d ∈ (strays innermost?).reports m, d.kind = .environmentMismatch := by
  cases innermost? <;> exact ⟨_, List.mem_singleton_self _, rfl⟩

/-- Frames are reported by name and start, like the open environments that they stand for. -/
theorem map_report {frames : List Frame} {opened : List Opened}
    (hplaces : frames.map (fun f => (f.name, f.start)) =
      opened.map (fun o => (o.marker.name, o.marker.start)))
    (report : Text → Nat → Diagnostic) :
    frames.map (fun f => report f.name f.start) =
      opened.map fun o => report o.marker.name o.marker.start := by
  have h := congrArg (List.map fun place : Text × Nat => report place.1 place.2) hplaces
  rwa [List.map_map, List.map_map] at h

/-- **What is reported with one event.** -/
theorem notes_advance {n n' : Nesting} {e : Hit Event} (h : n.Takes e n') :
    n'.log.flatMap (Entry.reports allowed) = n.log.flatMap (Entry.reports allowed) ++
      structural (advance allowed settings text
        (n.progress settings text register equations) e).notes := by
  cases h with
  | passes he =>
    rw [advance_leaf allowed settings text _ he]
    simp [structural]
  | begins m he =>
    rw [he, advance_opening, bind_of_ok (result_reportNesting _ _ _ _),
      Nesting.innermost?_progress, notes_reportNesting, notes_pure, List.append_nil,
      structural_reports]
    simp [Nesting.enter]
  | converts m he o outer hopened hname =>
    subst he
    have hplaces := n.stack_progress settings text register equations
    rw [hopened] at hplaces
    obtain ⟨frame, frames, hstack, hframe, -⟩ := List.map_eq_cons_iff.mp hplaces
    have hclose : advance allowed settings text (n.progress settings text register equations)
        m.closing = _ := close_convert hstack ((Prod.mk.inj hframe).1.trans hname)
    rw [hclose, bind_of_ok (result_convert _ _ _ _ _), notes_pure, List.append_nil,
      structural_of_forall_eq (only_convert _ _ _ _ _)]
    simp [Entry.reports, Fate.reports]
  | unwinds m he above o outer hopened hne habove hname =>
    subst he
    obtain ⟨frames, frame, hstack, hplaces, hframes, hother, hframe, -⟩ :=
      exists_stack_unwinds settings text register equations hopened hne habove hname
    have hclose : advance allowed settings text (n.progress settings text register equations)
        m.closing = _ := close_unwind hstack hframes hother hframe
    have hunwound : (reportUnwound m.name frames).notes =
        (Entry.ends m (.unwinds (above.map Opened.marker) o.marker)).reports allowed := by
      rw [reportUnwound, forM_report, Entry.reports, Fate.reports, List.map_map]
      exact map_report hplaces fun name start => ⟨.environmentMismatch,
        Markup.beginMarker name ++ " closed by " ++ Markup.endMarker m.name, start⟩
    rw [hclose, reportUnwound, bind_of_ok (by rw [forM_report]), notes_pure, List.append_nil,
      ← reportUnwound, hunwound, structural_reports]
    simp
  | strays m he hnone =>
    subst he
    have hclose : advance allowed settings text (n.progress settings text register equations)
        m.closing = _ :=
      close_stray (n.forall_stack_progress settings text register equations hnone)
    have hinnermost := n.innermost?_progress settings text register equations
    rw [Progress.innermost?] at hinnermost
    have hstray : (reportStray n.innermost? m.name m.start).notes =
        (Entry.ends m (.strays n.innermost?)).reports allowed := notes_reportStray n.innermost? m
    rw [hclose, hinnermost, bind_of_ok rfl, notes_pure, List.append_nil]
    change _ = _ ++ structural (reportStray n.innermost? m.name m.start).notes
    rw [hstray, structural_reports]
    simp

/-! ### Documents -/

/-- **All events** take the scan to that of the nesting that they reach. -/
theorem run_of_reached {es : List (Hit Event)} {n : Nesting} (h : Nesting.Reached es n) :
    (es.foldlM (advance allowed settings text) (.start register equations)).result =
        .ok (n.progress settings text register equations) ∧
      structural (es.foldlM (advance allowed settings text) (.start register equations)).notes =
        n.log.flatMap (Entry.reports allowed) := by
  induction h with
  | start => exact ⟨congrArg Except.ok (Progress.behind_nil _).symm, rfl⟩
  | step h ht ih =>
    obtain ⟨hresult, hnotes⟩ := ih
    rw [List.foldlM_append, bind_of_ok hresult]
    simp only [List.foldlM_cons, List.foldlM_nil, bind_pure]
    refine ⟨result_advance settings text register equations allowed ht, ?_⟩
    rw [notes_advance settings text register equations allowed ht, structural_append, hnotes]

/-- The edits that are left in the end are those of the forest. -/
theorem Nesting.outcome_forest (n : Nesting) :
    let s := n.progress settings text register equations
    n.forest.outcome settings text ⟨register, equations⟩ =
      (s.edits ++ surrendered s.stack, s.counters) := by
  intro s
  obtain ⟨frames, hframes, -, houtcome⟩ := exists_frames settings text n.opened
    ((Progress.start register equations).past settings text n.outside)
  have hcounters : (Progress.start register equations).counters = ⟨register, equations⟩ := rfl
  change s = _ at hframes
  change _ = (surrendered frames, s.counters) at houtcome
  rw [Progress.past, Progress.counters_behind, hcounters] at houtcome
  rw [Nesting.forest, Forest.outcome_append, houtcome, hframes]
  simp [Progress.past, Progress.behind, Progress.add, addEdits, Progress.start,
    Progress.counters]

theorem conclude_progress (n : Nesting) :
    let r := n.forest.outcome settings text ⟨register, equations⟩
    conclude text (n.progress settings text register equations) =
      ⟨n.opened.map Opened.report,
        .ok ⟨Edit.splice text 0 text.length r.1, r.2.register, r.2.equations⟩⟩ := by
  intro r
  have hr : r = _ := n.outcome_forest settings text register equations
  have hreports := map_report (n.stack_progress settings text register equations)
    fun name start =>
      ⟨.unmatchedEnvironment, Markup.beginMarker name ++ " is never closed", start⟩
  rw [conclude, hr]
  exact Noted.ext hreports rfl

/-- The conversion of a document, under any rule of nesting. -/
theorem resolveUnder_of_reached {n : Nesting}
    (h : Nesting.Reached (events settings register text) n) :
    (resolveUnder allowed settings register equations text).result =
        (let r := n.forest.outcome settings text ⟨register, equations⟩
        .ok ⟨Edit.splice text 0 text.length r.1, r.2.register, r.2.equations⟩) ∧
      structural (resolveUnder allowed settings register equations text).notes =
        n.log.flatMap (Entry.reports allowed) ++ n.opened.map Opened.report := by
  obtain ⟨hresult, hnotes⟩ := run_of_reached settings text register equations allowed h
  have hreports : structural (n.opened.map Opened.report) = n.opened.map Opened.report := by
    apply structural_of_forall_ne
    intro d hd
    obtain ⟨o, -, rfl⟩ := List.mem_map.mp hd
    exact nofun
  rw [resolveUnder, run, bind_of_ok hresult, conclude_progress, structural_append, hnotes, hreports]
  exact ⟨rfl, rfl⟩

end

/-! ### Well nested events -/

/-- A well nested document has no reports of ends that do not belong and of environments that
    stay open. -/
theorem only_resolve_of_wellNested (settings : Settings) (register : TheoremRegister)
    (equations : Nat) {text : Text} (h : WellNested (events settings register text)) :
    Only (fun kind => kind = .invalidNesting ∨ kind = .unknownEnvironment)
      (resolve settings register equations text) := by
  obtain ⟨forest, hbalanced, hevents⟩ := h
  rw [resolve_eq_run, resolveUnder, run, ← hevents,
    foldlM_advance_events mayNest settings text hbalanced, bind_assoc]
  apply only_bind (Forest.only_edits _ _ _ _ _ _)
  intro r
  -- no frame is left open
  exact fun d hd => absurd hd List.not_mem_nil

namespace Nesting

/-- All that stands in the open environments and outside of them is balanced. -/
def Clean (n : Nesting) : Prop := n.outside.Balanced ∧ ∀ o ∈ n.opened, o.inner.Balanced

theorem Clean.append {n : Nesting} {more : Forest} (h : n.Clean) (hmore : more.Balanced) :
    (n.append more).Clean := by
  obtain ⟨opened, outside, log⟩ := n
  obtain ⟨houtside, hopened⟩ := h
  cases opened with
  | nil => exact ⟨Forest.balanced_append.mpr ⟨houtside, hmore⟩, nofun⟩
  | cons o os =>
    obtain ⟨ho, hos⟩ := List.forall_mem_cons.mp hopened
    exact ⟨houtside, List.forall_mem_cons.mpr ⟨Forest.balanced_append.mpr ⟨ho, hmore⟩, hos⟩⟩

/-- Without a report of an end that does not belong, everything is balanced. -/
theorem Reached.clean {es : List (Hit Event)} {n : Nesting} {allowed : Text → Text → Bool}
    (h : Reached es n)
    (hnone : ∀ d ∈ n.log.flatMap (Entry.reports allowed), d.kind ≠ .environmentMismatch) :
    n.Clean := by
  induction h with
  | start => exact ⟨trivial, nofun⟩
  | @step es n n' e h ht ih =>
    cases ht with
    | passes he => exact (ih (by simpa using hnone)).append ⟨he, trivial⟩
    | begins m he =>
      obtain ⟨houtside, hopened⟩ := ih fun d hd => hnone d (by simp [enter, hd])
      exact ⟨houtside, List.forall_mem_cons.mpr ⟨trivial, hopened⟩⟩
    | converts m he o outer hopened hname =>
      obtain ⟨houtside, hinner⟩ := ih fun d hd => hnone d (by simp [hd])
      rw [hopened] at hinner
      obtain ⟨ho, houter⟩ := List.forall_mem_cons.mp hinner
      exact Clean.append (n := ⟨outer, _, _⟩) ⟨houtside, houter⟩ ⟨hname.symm, ho, trivial⟩
    | unwinds m he above o outer hopened hne habove hname =>
      obtain ⟨a, rest, rfl⟩ := List.exists_cons_of_ne_nil hne
      exact absurd rfl (hnone ⟨.environmentMismatch,
        Markup.beginMarker a.marker.name ++ " closed by " ++ Markup.endMarker m.name,
        a.marker.start⟩ (by simp [Entry.reports, Fate.reports]))
    | strays m he hstray =>
      obtain ⟨d, hd, hkind⟩ := Fate.exists_report_strays m n.innermost?
      exact absurd hkind (hnone d (by simp [Entry.reports, hd]))

end Nesting

/-- Ends that do not belong and environments that stay open are reported if and only if a
    document is not well nested. -/
theorem mismatch_iff (settings : Settings) (register : TheoremRegister) (equations : Nat)
    (text : Text) :
    (∃ d ∈ (resolve settings register equations text).notes,
        d.kind = .environmentMismatch ∨ d.kind = .unmatchedEnvironment) ↔
      ¬ WellNested (events settings register text) := by
  constructor
  · rintro ⟨d, hd, hkind⟩ hnested
    rcases only_resolve_of_wellNested settings register equations hnested d hd with h | h
    all_goals
      rw [h] at hkind
      rcases hkind with hkind | hkind <;> cases hkind
  · intro hnested
    by_contra hnone
    refine hnested ?_
    obtain ⟨n, hn⟩ := Nesting.exists_reached (events settings register text)
    -- all reports of structure are among the reports
    have hreports := (resolveUnder_of_reached settings text register equations mayNest hn).2
    rw [← resolve_eq_run] at hreports
    have hmem : ∀ d ∈ n.log.flatMap (Entry.reports mayNest) ++ n.opened.map Opened.report,
        d.kind ≠ .environmentMismatch ∧ d.kind ≠ .unmatchedEnvironment := by
      intro d hd
      rw [← hreports] at hd
      exact not_or.mp fun hkind => hnone ⟨d, (List.mem_filter.mp hd).1, hkind⟩
    have hopened : n.opened = [] := by
      cases hn' : n.opened with
      | nil => rfl
      | cons o os => exact absurd rfl (hmem o.report (by simp [hn'])).2
    have hclean := hn.clean fun d hd => (hmem d (List.mem_append_left _ hd)).1
    refine ⟨n.outside, hclean.1, ?_⟩
    have hforest : n.forest = n.outside := by rw [Nesting.forest, hopened, givenUp, Forest.append_nil]
    rw [← hforest]
    exact hn.events_forest

/-- Beginnings are logged from left to right. -/
theorem Nesting.Reached.pairwise_begun {es : List (Hit Event)} {n : Nesting} {size : Nat}
    (h : Reached es n) (hes : Apart size es) :
    (n.log.flatMap Entry.begun).Pairwise fun a b => a.start < b.start := by
  have hlog : (n.log.map Entry.event).Pairwise fun a b => a.start < b.start := by
    rw [h.log_events]
    refine List.Pairwise.filter _ (hes.pairwise.imp_of_mem ?_)
    intro a b ha _ hab
    exact Nat.lt_of_lt_of_le (hes.inside a ha).1 hab
  have hbegun : ∀ (entry : Entry), ∀ m ∈ entry.begun, entry.event.start = m.start := by
    intro entry m hm
    cases entry with
    | begins m' outer? =>
      rw [List.mem_singleton.mp hm]
      rfl
    | ends m' fate => cases hm
  refine List.pairwise_flatMap.mpr ⟨fun entry _ => ?_, ?_⟩
  · cases entry with
    | begins m outer? => exact List.pairwise_singleton _ _
    | ends m fate => exact .nil
  · apply (List.pairwise_map.mp hlog).imp
    intro a b hab m hm m' hm'
    rw [← hbegun a m hm, ← hbegun b m' hm']
    exact hab

/-- **What becomes of beginnings and ends.**  The marks of a document that count reach one
    nesting, and for it:

    * the log holds every beginning and every end, in the order of the text;
    * every beginning is open in the end, or was closed by exactly one end;
    * the reports of structure are those of the log, in its order, and then those of the
      environments that are open in the end;
    * there is a report of an end that does not belong, or of an environment that stays open,
      if and only if the marks are not well nested;
    * the environments that the log says are converted are those of a forest of all marks, and
      the result is the conversion of this forest, whatever the rule of nesting;
    * the scan has the same result under every other rule of nesting. -/
theorem fates_of_environments (settings : Settings) (register : TheoremRegister)
    (equations : Nat) (text : Text) :
    ∃ n : Nesting, Nesting.Reached (events settings register text) n ∧
      (∀ n', Nesting.Reached (events settings register text) n' → n' = n) ∧
      n.log.map Entry.event =
        (events settings register text).filter (fun e => e.value.isMarker) ∧
      (n.log.flatMap Entry.closed ++ n.opened.map Opened.marker).Perm
        (n.log.flatMap Entry.begun) ∧
      (n.log.flatMap Entry.begun).Pairwise (fun a b => a.start < b.start) ∧
      structural (resolve settings register equations text).notes =
        n.log.flatMap (Entry.reports mayNest) ++ n.opened.map Opened.report ∧
      ((∃ d ∈ (resolve settings register equations text).notes,
          d.kind = .environmentMismatch ∨ d.kind = .unmatchedEnvironment) ↔
        ¬ WellNested (events settings register text)) ∧
      n.forest.events = events settings register text ∧
      n.forest.environments = n.log.flatMap Entry.converted ∧
      (∀ allowed outer?, (resolve settings register equations text).result = (do
        let (shown, c) ← n.forest.converted allowed settings text outer? 0 text.length
          ⟨register, equations⟩
        return (⟨shown, c.register, c.equations⟩ : Resolved)).result) ∧
      ∀ allowed, (resolveUnder allowed settings register equations text).result =
        (resolve settings register equations text).result := by
  obtain ⟨n, hn⟩ := Nesting.exists_reached (events settings register text)
  have hunder := fun allowed => resolveUnder_of_reached settings text register equations allowed hn
  refine ⟨n, hn, fun n' hn' => hn'.unique hn, hn.log_events, hn.perm_begun,
    hn.pairwise_begun (apart_events settings register text), ?_,
    mismatch_iff settings register equations text, hn.events_forest, hn.environments_forest,
    fun allowed outer? => ?_, fun allowed => ?_⟩
  · rw [resolve_eq_run]
    exact (hunder mayNest).2
  · rw [resolve_eq_run, (hunder mayNest).1, Forest.converted_eq_edits, bind_map_left,
      bind_of_ok (Forest.result_edits settings text allowed outer? n.forest _)]
    rfl
  · rw [resolve_eq_run, (hunder allowed).1, (hunder mayNest).1]

end TexMark.Environment
