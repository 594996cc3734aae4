/-
  TexMark/Proofs/Theorem/Headings.lean
  ====================================
  **The heading of an instance.**  The number of an instance is drawn where the instance begins,
  and its callout is written where it ends.  In between, declarations may be read.  So an instance
  has the number that it gets at its beginning, and the heading that is declared last in front of
  its end; it is written as at its beginning exactly if what its body declares leaves the heading
  as it was (`callout_of_instance`).

    * `render_eq_render_iff` — of a register, a callout shows the heading of its kind, and this
      it does show;
    * `heading?_registerBehind` — only declarations of a name change its heading.
-/
import TexMark.Proofs.Theorem.Instances
import TexMark.Proofs.Theorem.Unnumbered

namespace TexMark

def TheoremRegister.heading? (r : TheoremRegister) (name : Text) : Option Text :=
  (r.kinds.get? name).map (·.heading)

/-! ### What a callout shows of a register -/

namespace Callout

open Text (lines unlines strip stripEnd)

/-- What a lead-in shows between its heading and its point. -/
def behindHeading (number? : Option Text) : Text := number?.elim [] (' ' :: ·)

theorem leadIn_eq (heading : Text) (number? : Option Text) :
    leadIn heading number? = heading ++ behindHeading number? ++ ['.', ' '] := by
  cases number? with
  | none => simp [leadIn, behindHeading]
  | some number => simp [leadIn, behindHeading]

theorem length_stripEnd_le_cons (c : Char) (t : Text) :
    (stripEnd t).length ≤ (stripEnd (c :: t)).length := by
  simp only [stripEnd, Text.trimEnd, List.length_reverse, List.reverse_cons, List.dropWhile_append]
  split
  · rename_i hblank
    rw [List.isEmpty_iff.mp hblank]
    exact Nat.zero_le _
  · rw [List.length_append]
    exact Nat.le_add_right _ _

/-- A lead-in keeps its heading, its number and its point. -/
theorem stripEnd_leadIn (heading : Text) (number? : Option Text) (first : Text) :
    stripEnd (leadIn heading number? ++ first) =
      heading ++ (behindHeading number? ++ '.' :: stripEnd (' ' :: first)) := by
  have htrim := Text.stripEnd_append_cons (heading ++ behindHeading number?) (c := '.')
    (by decide) (' ' :: first)
  rw [leadIn_eq]
  simpa using htrim

theorem heading_of_stripEnd {heading heading' : Option Text} {number? : Option Text} {first : Text}
    (h : stripEnd (heading.elim [] (leadIn · number?) ++ first) =
      stripEnd (heading'.elim [] (leadIn · number?) ++ first)) : heading = heading' := by
  have hlead : ∀ t, stripEnd (leadIn t number? ++ first) =
      t ++ (behindHeading number? ++ '.' :: stripEnd (' ' :: first)) :=
    fun t => stripEnd_leadIn t number? first
  -- a heading makes the line longer
  have hlonger : ∀ t, stripEnd first ≠ stripEnd (leadIn t number? ++ first) := by
    intro t heq
    have hlength := congrArg List.length heq
    have hfirst := length_stripEnd_le_cons ' ' first
    rw [hlead, List.length_append, List.length_append, List.length_cons] at hlength
    omega
  cases heading with
  | none =>
    cases heading' with
    | none => rfl
    | some t' => exact absurd h (hlonger t')
  | some t =>
    cases heading' with
    | none => exact absurd h.symm (hlonger t)
    | some t' =>
      simp only [Option.elim_some, hlead] at h
      rw [List.append_cancel_right h]

theorem render_eq_heading (register : TheoremRegister) {environment content first : Text}
    {rest : List Text} (hlines : lines (strip content) = first :: rest)
    (number? title? : Option Text) :
    render register environment content number? title? =
      unlines (headLine (nameFor environment) title? ::
        ((stripEnd ((register.heading? environment).elim [] (leadIn · number?) ++ first) ::
          rest).map quotedLine ++ [[], []])) := by
  cases hkind : register.kinds.get? environment with
  | none =>
    rw [TheoremRegister.heading?, hkind]
    exact render_eq_of_undeclared hkind hlines number? title?
  | some kind =>
    rw [TheoremRegister.heading?, hkind]
    exact render_eq hkind hlines number? title?

/-- **Of a register, a callout shows the heading of its kind**, and nothing else. -/
theorem render_eq_render_iff (register register' : TheoremRegister)
    (environment content : Text) (number? title? : Option Text) :
    render register environment content number? title? =
        render register' environment content number? title? ↔
      register.heading? environment = register'.heading? environment := by
  obtain ⟨first, rest, hlines⟩ : ∃ first rest, lines (strip content) = first :: rest :=
    List.exists_cons_of_ne_nil (Text.splitOn_ne_nil '\n' (strip content))
  rw [render_eq_heading register hlines, render_eq_heading register' hlines]
  constructor
  · intro h
    simp only [Text.unlines_cons, List.map_cons, List.cons_append, List.flatMap_cons] at h
    have hline := List.append_cancel_right (List.cons.inj (List.append_cancel_left h)).2
    have hread := congrArg unquoted hline
    rw [unquoted_quotedLine, unquoted_quotedLine, emptied_stripEnd, emptied_stripEnd] at hread
    exact heading_of_stripEnd hread
  · intro h
    rw [h]

end Callout

/-! ### Headings along a run -/

namespace Environment

open Counting Noted

def registerBehind (settings : Settings) (text : Text) (register : TheoremRegister)
    (es : List (Hit Event)) : TheoremRegister := es.foldl (registerAfter settings text) register

def declaredHeading? (name : Text) (e : Hit Event) : Option Text :=
  match e.value with
  | .declaration command =>
    let kind := TheoremRegister.kindOf command
    if kind.name = name then some kind.heading else none
  | _ => none

/-- The heading that events declare last for a name. -/
def lastHeading? (name : Text) (es : List (Hit Event)) : Option Text :=
  (es.filterMap (declaredHeading? name)).getLast?

section

variable {register : TheoremRegister} {name : Text} {es : List (Hit Event)}

/-- What changes counters only leaves the kinds under their names. -/
theorem keyed_of_fresh_eq {r r' : TheoremRegister} (hr : Keyed r)
    (h : ∀ name, (r'.kinds.get? name).map fresh = (r.kinds.get? name).map fresh) : Keyed r' := by
  intro name k hk
  have hfresh := h name
  rw [hk, Option.map_some, eq_comm, Option.map_eq_some_iff] at hfresh
  obtain ⟨k', hk', heq⟩ := hfresh
  have hname : (fresh k').name = (fresh k).name := congrArg TheoremKind.name heq
  exact hname.symm.trans (hr name k' hk')

theorem heading?_of_fresh {r r' : TheoremRegister}
    (h : (r'.kinds.get? name).map fresh = (r.kinds.get? name).map fresh) :
    r'.heading? name = r.heading? name := by
  have hheading : ∀ k? : Option TheoremKind, k?.map (·.heading) = (k?.map fresh).map (·.heading) := by
    intro k?
    rw [Option.map_map]
    rfl
  rw [TheoremRegister.heading?, TheoremRegister.heading?, hheading, h, ← hheading]

/-- **One event**: it changes the heading of a name only by a declaration. -/
theorem heading?_registerAfter (settings : Settings) (text : Text) (hr : Keyed register)
    (name : Text) (e : Hit Event) :
    Keyed (registerAfter settings text register e) ∧
      (registerAfter settings text register e).heading? name =
        (declaredHeading? name e).or (register.heading? name) := by
  obtain ⟨start, stop, value⟩ := e
  cases value with
  | opening opened =>
    have hfresh : ∀ m, ((registerAfter settings text register
        ⟨start, stop, .opening opened⟩).kinds.get? m).map fresh =
          (register.kinds.get? m).map fresh := by
      intro m
      rw [registerAfter_eq, call?]
      split
      · exact fresh_get?_nextNumber hr opened m
      · rfl
    exact ⟨keyed_of_fresh_eq hr hfresh, heading?_of_fresh (hfresh name)⟩
  | closing closed => exact ⟨hr, rfl⟩
  | section_ =>
    have hfresh := fresh_get?_enterSection register (register.sectionNumber + 1)
    exact ⟨keyed_of_fresh_eq hr hfresh, heading?_of_fresh (hfresh name)⟩
  | declaration command =>
    have hget := TheoremRegister.get?_declare register (TheoremRegister.kindOf command)
    constructor
    · intro m k hk
      rw [registerAfter, hget] at hk
      split at hk
      · rename_i hm
        cases hk
        exact hm.symm
      · exact hr m k hk
    · rw [registerAfter, TheoremRegister.heading?, hget, declaredHeading?]
      by_cases hname : name = (TheoremRegister.kindOf command).name
      · simp [hname]
      · simp [hname, Ne.symm hname, TheoremRegister.heading?]

/-- **Behind any events a name has the heading that they declare last**, or that it had. -/
theorem heading?_registerBehind (settings : Settings) (text : Text) (hr : Keyed register)
    (name : Text) (es : List (Hit Event)) :
    Keyed (registerBehind settings text register es) ∧
      (registerBehind settings text register es).heading? name =
        (lastHeading? name es).or (register.heading? name) := by
  induction es using List.reverseRecOn with
  | nil => exact ⟨hr, rfl⟩
  | append_singleton es e ih =>
    obtain ⟨hkeyed, hheading⟩ := ih
    obtain ⟨hkeyed', hheading'⟩ := heading?_registerAfter settings text hkeyed name e
    have hbehind : registerBehind settings text register (es ++ [e]) =
        registerAfter settings text (registerBehind settings text register es) e := by
      rw [registerBehind, List.foldl_append]
      rfl
    have hlast : lastHeading? name (es ++ [e]) =
        (declaredHeading? name e).or (lastHeading? name es) := by
      simp only [lastHeading?, List.filterMap_append, List.getLast?_append]
      cases h : declaredHeading? name e with
      | none => rw [List.filterMap_cons_none h]; rfl
      | some heading => rw [List.filterMap_cons_some h]; rfl
    rw [hbehind, hlast, Option.or_assoc, ← hheading]
    exact ⟨hkeyed', hheading'⟩

theorem register_run {allowed : Text → Text → Bool} {settings : Settings} {text : Text}
    {s s' : Progress}
    (h : (es.foldlM (advance allowed settings text) s).result = .ok s') :
    s'.register = registerBehind settings text s.register es := by
  induction es generalizing s with
  | nil =>
    cases h
    rfl
  | cons e es ih =>
    rw [List.foldlM_cons] at h
    obtain ⟨s₁, hstep, hrest⟩ := of_result_bind h
    rw [ih hrest, (frames_advance hstep).1]
    rfl

theorem exists_of_mem_framesOf {settings : Settings} {text : Text} {f : Frame}
    (h : f ∈ framesOf settings text register es) :
    ∃ before o between, es = before ++ o :: between ∧
      frame? settings text (registerBehind settings text register before) o = some f := by
  induction es generalizing register with
  | nil => cases h
  | cons e es ih =>
    rw [framesOf] at h
    rcases List.mem_append.mp h with h | h
    · exact ⟨[], e, es, rfl, Option.mem_toList.mp h⟩
    · obtain ⟨before, o, between, rfl, hframe⟩ := ih h
      exact ⟨e :: before, o, between, rfl, hframe⟩

end

/-! ### Instances -/

theorem convert_instance {settings : Settings} {register : TheoremRegister} {frame : Frame}
    (hconverter : settings.converters.get? frame.name = none)
    (htheorem : isTheorem register frame.name) (content : Text) (equations : Nat) :
    frame.convert settings register content equations =
      pure ((if frame.inline then ['\n', '\n'] else []) ++
        Callout.render register frame.name content frame.number? frame.title?, equations) := by
  unfold Frame.convert
  rw [hconverter]
  simp only [htheorem, if_true]
  cases frame.inline <;> rfl

/-- A frame that stands open has been opened by an event. -/
theorem exists_opening {settings : Settings} {register : TheoremRegister} {equations : Nat}
    {text : Text} {es : List (Hit Event)} {s : Progress} {f : Frame}
    (hrun : (es.foldlM (advance mayNest settings text) (.start register equations)).result = .ok s)
    (hf : f ∈ s.stack) :
    ∃ before o between, es = before ++ o :: between ∧ o.value = .opening f.name ∧
      o.start = f.start ∧
      frame? settings text (registerBehind settings text register before) o = some f.bare := by
  have hopened : f.bare ∈ framesOf settings text register es := by
    rcases frames_run hrun f hf with ⟨g, hg, -⟩ | hopened
    · cases hg
    · exact hopened
  obtain ⟨before, ⟨start, stop, value⟩, between, rfl, hframe⟩ := exists_of_mem_framesOf hopened
  cases value with
  | opening name =>
    have hname := congrArg Frame.name (Option.some.inj hframe)
    have hstart := congrArg Frame.start (Option.some.inj hframe)
    rw [name_frameAt] at hname
    rw [start_frameAt] at hstart
    exact ⟨before, _, between, rfl, congrArg Event.opening hname, hstart, hframe⟩
  | closing name => cases hframe
  | section_ => cases hframe
  | declaration command => cases hframe

/-- The number of a frame is drawn from the register in front of its beginning. -/
theorem number_of_frame? {settings : Settings} {register : TheoremRegister} {text : Text}
    {o : Hit Event} {f : Frame} (hframe : frame? settings text register o = some f.bare)
    (hopening : o.value = .opening f.name) (hconverter : settings.converters.get? f.name = none) :
    f.number? =
      if isTheorem register f.name then (register.nextNumber f.name).1 else none := by
  have hhas : settings.converters.has f.name = false := by
    simp [Table.has, hconverter]
  have hdrawn := frameAt_number settings register text f.name o.start o.stop
  rw [frame?, hopening] at hframe
  have hnumber := congrArg Frame.number? (Option.some.inj hframe)
  simp only [hhas, Bool.not_false, Bool.and_true] at hdrawn
  split at hdrawn
  · rename_i h
    rw [if_pos h, ← hdrawn]
    exact hnumber.symm
  · rename_i h
    rw [if_neg h, ← hdrawn.1]
    exact hnumber.symm

/-- **How an instance is written.**  Where an environment that is a theorem ends, its callout is
    written: with the number that its name got where it began, and with the heading that its name
    has at the end.  So it is the callout of the register in front of its beginning exactly if no
    declaration in between changes the heading. -/
theorem callout_of_instance (settings : Settings) {register : TheoremRegister}
    (hregister : Keyed register) (equations : Nat) (text : Text)
    {front rest : List (Hit Event)} {e : Hit Event} {s : Progress} {frame : Frame}
    {outer : List Frame}
    (hevents : events settings register text = front ++ e :: rest)
    (hrun : (front.foldlM (advance mayNest settings text) (.start register equations)).result =
      .ok s)
    (hend : e.value = .closing frame.name) (hstack : s.stack = frame :: outer)
    (hconverter : settings.converters.get? frame.name = none)
    (htheorem : isTheorem s.register frame.name) :
    ∃ before o between, front = before ++ o :: between ∧ o.value = .opening frame.name ∧
      o.start = frame.start ∧
      let begun := registerBehind settings text register before
      let content := Edit.splice text frame.contentStart e.start frame.edits
      let written := fun r : TheoremRegister =>
        Callout.render r frame.name content frame.number? frame.title?
      frame.number? =
        (if isTheorem begun frame.name then (begun.nextNumber frame.name).1 else none) ∧
      (advance mayNest settings text s e).result = .ok ({ s with stack := outer }.add
        [⟨frame.start, e.stop, (if frame.inline then ['\n', '\n'] else []) ++ written s.register⟩]) ∧
      s.register.heading? frame.name =
        (lastHeading? frame.name between).or (begun.heading? frame.name) ∧
      (written s.register = written begun ↔
        ∀ heading ∈ lastHeading? frame.name between, begun.heading? frame.name = some heading) := by
  obtain ⟨before, o, between, rfl, hopening, hstart, hframe⟩ :=
    exists_opening hrun (hstack ▸ List.mem_cons_self)
  have hbegun := (heading?_registerBehind settings text hregister frame.name before).1
  have hregisters : s.register =
      registerBehind settings text (registerBehind settings text register before) (o :: between) := by
    rw [register_run hrun, registerBehind, List.foldl_append]
    rfl
  have hlast : lastHeading? frame.name (o :: between) = lastHeading? frame.name between := by
    have hnone : declaredHeading? frame.name o = none := by
      rw [declaredHeading?, hopening]
    rw [lastHeading?, List.filterMap_cons_none hnone]
    rfl
  have hheading : s.register.heading? frame.name = (lastHeading? frame.name between).or
      ((registerBehind settings text register before).heading? frame.name) := by
    rw [hregisters, (heading?_registerBehind settings text hbegun frame.name _).2, hlast]
  refine ⟨before, o, between, rfl, hopening, hstart, ?_, ?_, hheading, ?_⟩
  · exact number_of_frame? hframe hopening hconverter
  · unfold advance
    rw [hend]
    have hconvert := congrArg Noted.result (convert_instance hconverter htheorem
      (Edit.splice text frame.contentStart e.start frame.edits) s.equations)
    exact result_close_convert hstack rfl hconvert
  · rw [Callout.render_eq_render_iff, hheading]
    cases lastHeading? frame.name between with
    | none => simp
    | some heading => simp [eq_comm]

def redeclaredInside : Text :=
  "\\newtheorem{theorem}{Theorem}\\begin{theorem}a" ++
    "\\newtheorem{theorem}{Satz}\\end{theorem}"

/-- The converters that there are by default, with equations numbered. -/
def numberingSettings : Settings := ⟨defaultConverters, [], true, true⟩

def redeclaredFront : List (Hit Event) :=
  [⟨0, 29, .declaration ⟨false, "theorem", none, "Theorem", none⟩⟩, ⟨29, 44, .opening "theorem"⟩,
    ⟨45, 71, .declaration ⟨false, "theorem", none, "Satz", none⟩⟩]

theorem events_redeclaredInside : events numberingSettings .empty redeclaredInside =
    redeclaredFront ++ ⟨71, 84, .closing "theorem"⟩ :: [] := by
  rfl

theorem callout_of_instance_redeclared :
    let frame : Frame := ⟨"theorem", 29, 44, [⟨45, 71, []⟩], none, some "1", none, false⟩
    let declared : TheoremRegister := ⟨[("theorem", ⟨"theorem", "Satz", 0, none, false, true⟩)], 0⟩
    let s : Progress := ⟨[frame], [⟨0, 29, []⟩], 0, declared, 0⟩
    (redeclaredFront.foldlM (advance mayNest numberingSettings redeclaredInside)
        (.start .empty 0)).result = .ok s ∧
      (advance mayNest numberingSettings redeclaredInside s ⟨71, 84, .closing "theorem"⟩).result =
        .ok ({ s with stack := [] }.add [⟨29, 84, "> [!theorem]\n> Satz 1. a\n\n"⟩]) := by
  intro frame declared s
  have hrun : (redeclaredFront.foldlM (advance mayNest numberingSettings redeclaredInside)
      (.start .empty 0)).result = .ok s := rfl
  have hwritten : Callout.render declared "theorem"
      (Edit.splice redeclaredInside 44 71 [⟨45, 71, []⟩]) (some "1") none =
        "> [!theorem]\n> Satz 1. a\n\n" := by decide
  obtain ⟨before, o, between, -, -, -, -, hresult, -⟩ :=
    callout_of_instance numberingSettings (fun _ _ h => by cases h) 0 redeclaredInside
      events_redeclaredInside hrun rfl rfl rfl rfl
  refine ⟨hrun, ?_⟩
  rw [← hwritten]
  exact hresult

/-- **A declaration inside an instance** changes the heading of the instance itself. -/
theorem heading_of_redeclared :
    let begun := registerBehind numberingSettings redeclaredInside .empty (redeclaredFront.take 1)
    events numberingSettings .empty redeclaredInside =
        redeclaredFront ++ [⟨71, 84, .closing "theorem"⟩] ∧
      Callout.render begun "theorem" "a" (begun.nextNumber "theorem").1 none =
        "> [!theorem]\n> Theorem 1. a\n\n" ∧
      (resolve numberingSettings .empty 0 redeclaredInside).result =
        .ok ⟨"> [!theorem]\n> Satz 1. a\n\n",
          ⟨[("theorem", ⟨"theorem", "Satz", 0, none, false, true⟩)], 0⟩, 0⟩ := by
  intro begun
  refine ⟨events_redeclaredInside, ?_, ?_⟩
  · decide +kernel
  · rw [resolve_eq_run, resolveUnder, run, events_redeclaredInside]
    rfl

end Environment

end TexMark
