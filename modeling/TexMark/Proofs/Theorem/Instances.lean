/-
  TexMark/Proofs/Theorem/Instances.lean
  =====================================
  **Numbers of the instances in a document.**  The scan for environments calls the register:
  a declaration declares, a heading begins the next section, a beginning draws a number for
  its frame (`callsOf`).  Behind any events the register is the one after their calls, and the
  sections of a document ascend.

    * `exists_number_of_mem` — each number given to a frame is the answer to a call;
    * `numbers_of_group` — kinds that count together are numbered one after the other over every
      run of calls, and no two of their instances in a document get the same number;
    * `numbers_of_group_outsider` — not so if a name outside the group draws from its counter.
-/
import TexMark.Proofs.Theorem.Counting
import TexMark.Proofs.Environment.Placement

namespace TexMark.Environment

open Counting Noted

/-! ### The calls of a document -/

/-- The call that an event makes on the register. -/
def call? (settings : Settings) (register : TheoremRegister) : Event → Option Call
  | .opening name =>
    if isTheorem register name && !settings.converters.has name then some (.number name) else none
  | .closing _ => none
  | .section_ => some (.section_ (register.sectionNumber + 1))
  | .declaration command =>
    let k := TheoremRegister.kindOf command
    some (.declare k.name k.heading k.parent? k.shared k.numbered)

/-- The calls of events, from a register on. -/
def callsOf (settings : Settings) (text : Text) (register : TheoremRegister) :
    List (Hit Event) → List Call
  | [] => []
  | e :: es => (call? settings register e.value).toList ++
      callsOf settings text (registerAfter settings text register e) es

/-- The frame that an event opens. -/
def frame? (settings : Settings) (text : Text) (register : TheoremRegister) (e : Hit Event) :
    Option Frame :=
  match e.value with
  | .opening name => some (frameAt settings register text name e.start e.stop).1
  | _ => none

/-- The frames that events open, from a register on. -/
def framesOf (settings : Settings) (text : Text) (register : TheoremRegister) :
    List (Hit Event) → List Frame
  | [] => []
  | e :: es => (frame? settings text register e).toList ++
      framesOf settings text (registerAfter settings text register e) es

/-- The number of a frame, if it is an instance of a group. -/
def numberIn? (names : List Text) (f : Frame) : Option Text :=
  if names.contains f.name then f.number? else none

/-- The numbers of the instances of a group. -/
def numbersOf (names : List Text) (frames : List Frame) : List Text :=
  frames.filterMap (numberIn? names)

section

variable {settings : Settings} {text : Text} {p : TheoremKind} {sharers : List Text}
  {calls before : List Call} {e : Hit Event} {es : List (Hit Event)}

theorem frameAt_number (settings : Settings) (register : TheoremRegister) (text name : Text)
    (start stop : Nat) :
    let opened := frameAt settings register text name start stop
    if isTheorem register name && !settings.converters.has name then
      (opened.1.number?, opened.2) = register.nextNumber name
    else opened.1.number? = none ∧ opened.2 = register := by
  unfold frameAt
  cases settings.converters.has name with
  | true =>
    simp only [Bool.and_true, Bool.not_true, Bool.and_false, Bool.false_eq_true, if_false]
    split
    · split <;> exact ⟨rfl, rfl⟩
    · exact ⟨rfl, rfl⟩
  | false =>
    simp only [Bool.and_false, Bool.false_eq_true, if_false, Bool.not_false, Bool.and_true]
    split
    · split <;> rfl
    · exact ⟨rfl, rfl⟩

/-- The register behind an event is the one after its call. -/
theorem registerAfter_eq (settings : Settings) (text : Text) (register : TheoremRegister)
    (e : Hit Event) : registerAfter settings text register e =
      (call? settings register e.value).elim register fun c => c.run register := by
  obtain ⟨start, stop, value⟩ := e
  cases value with
  | opening name =>
    have hframe := frameAt_number settings register text name start stop
    simp only [registerAfter, call?]
    split at hframe
    · rename_i h
      rw [if_pos h]
      exact congrArg Prod.snd hframe
    · rename_i h
      rw [if_neg h]
      exact hframe.2
  | closing name => rfl
  | section_ => rfl
  | declaration command =>
    have hkind : ∀ k : TheoremKind, fresh k = k →
        (⟨k.name, k.heading, 0, k.parent?, k.shared, k.numbered⟩ : TheoremKind) = k := fun _ h => h
    have hfresh : fresh (TheoremRegister.kindOf command) = TheoremRegister.kindOf command := by
      unfold TheoremRegister.kindOf
      split <;> rfl
    simp only [registerAfter, call?, Option.elim_some, Call.run, hkind _ hfresh]

theorem registerAfter_after (settings : Settings) (text : Text) (before : List Call)
    (e : Hit Event) : registerAfter settings text (after before) e =
      after (before ++ (call? settings (after before) e.value).toList) := by
  rw [registerAfter_eq]
  cases call? settings (after before) e.value with
  | none => simp
  | some c => exact (after_concat before c).symm

/-- **The sections of a document ascend.** -/
theorem section_of_callsOf (before : List Call) {front rest : List Call} {n : Int}
    (h : callsOf settings text (after before) es = front ++ .section_ n :: rest) :
    n = sectionOf (before ++ front) + 1 := by
  induction es generalizing before front with
  | nil => simp [callsOf] at h
  | cons e es ih =>
    rw [callsOf, registerAfter_after] at h
    cases hcall : call? settings (after before) e.value with
    | none =>
      rw [hcall] at h
      simp only [Option.toList_none, List.nil_append, List.append_nil] at h
      exact ih _ h
    | some c =>
      rw [hcall] at h
      cases front with
      | nil =>
        obtain ⟨rfl, -⟩ := List.cons.inj h
        obtain ⟨start, stop, value⟩ := e
        cases value with
        | opening name =>
          simp only [call?] at hcall
          split at hcall <;> cases hcall
        | closing name => cases hcall
        | section_ =>
          cases hcall
          rw [List.append_nil, sectionNumber_after]
        | declaration command => cases hcall
      | cons c' front =>
        obtain ⟨rfl, htail⟩ := List.cons.inj h
        have hsection := ih _ htail
        simpa using hsection

theorem ascending_callsOf : Ascending (callsOf settings text .empty es) := by
  intro front n rest h
  exact section_of_callsOf [] h

/-- A frame with a number has drawn it. -/
theorem call?_of_number {register : TheoremRegister} {names : List Text} {f : Frame}
    {number : Text} (hframe : frame? settings text register e = some f)
    (hnumber : numberIn? names f = some number) :
    ∃ m ∈ names, call? settings register e.value = some (.number m) ∧
      (register.nextNumber m).1 = some number := by
  obtain ⟨start, stop, value⟩ := e
  cases value with
  | opening name =>
    cases hframe
    unfold numberIn? at hnumber
    rw [name_frameAt] at hnumber
    split at hnumber
    · rename_i hname
      have hdrawn := frameAt_number settings register text name start stop
      split at hdrawn
      · rename_i htheorem
        refine ⟨name, List.contains_iff_mem.mp hname, if_pos htheorem, ?_⟩
        rw [← hdrawn]
        exact hnumber
      · rw [hdrawn.1] at hnumber
        cases hnumber
    · cases hnumber
  | closing name => cases hframe
  | section_ => cases hframe
  | declaration command => cases hframe

/-- **Each number of a group is the answer to a call**: the count at that call. -/
theorem exists_number_of_mem (h : CountsTogether p sharers calls)
    (hothers : NoOthers p sharers calls)
    (hcalls : calls = before ++ callsOf settings text (after before) es) {number : Text}
    (hnumber : number ∈ numbersOf (p.name :: sharers) (framesOf settings text (after before) es)) :
    ∃ between m rest, callsOf settings text (after before) es = between ++ .number m :: rest ∧
      m ∈ p.name :: sharers ∧
      number = numberText p (sectionOf (before ++ between))
        (drawn p sharers (before ++ between) + 1) := by
  induction es generalizing before with
  | nil => simp [framesOf, numbersOf] at hnumber
  | cons e es ih =>
    rw [numbersOf, framesOf, List.filterMap_append, registerAfter_after] at hnumber
    rw [callsOf, registerAfter_after] at hcalls ⊢
    rcases List.mem_append.mp hnumber with hhead | htail
    · obtain ⟨f, hf, hfnumber⟩ := List.mem_filterMap.mp hhead
      obtain ⟨m, hm, hcall, hanswer⟩ := call?_of_number (Option.mem_toList.mp hf) hfnumber
      refine ⟨[], m, _, by rw [hcall]; rfl, hm, ?_⟩
      have hsplit : calls = before ++ .number m ::
          callsOf settings text (after (before ++ [.number m])) es := by
        rw [hcalls, hcall]
        rfl
      have hcount := nextNumber_of_group h hothers hsplit hm
      rw [hanswer] at hcount
      rw [List.append_nil]
      exact Option.some.inj hcount
    · obtain ⟨between, m, rest, hbetween, hm, hcount⟩ := ih (by rw [hcalls, List.append_assoc]) htail
      refine ⟨(call? settings (after before) e.value).toList ++ between, m, rest, ?_, hm, ?_⟩
      · rw [hbetween, List.append_assoc]
      · rw [hcount, List.append_assoc]

theorem nodup_numbersOf (before : List Call) (h : CountsTogether p sharers calls)
    (hothers : NoOthers p sharers calls) (hascending : Ascending calls)
    (hcalls : calls = before ++ callsOf settings text (after before) es) :
    (numbersOf (p.name :: sharers) (framesOf settings text (after before) es)).Nodup := by
  induction es generalizing before with
  | nil => exact List.nodup_nil
  | cons e es ih =>
    rw [numbersOf, framesOf, List.filterMap_append, registerAfter_after]
    rw [callsOf, registerAfter_after] at hcalls
    have hrest := ih _ (by rw [hcalls, List.append_assoc])
    cases hframe : frame? settings text (after before) e with
    | none => exact hrest
    | some f =>
      cases hnumber : numberIn? (p.name :: sharers) f with
      | none => simpa [hnumber, numbersOf] using hrest
      | some number =>
        obtain ⟨m, hm, hcall, hanswer⟩ := call?_of_number hframe hnumber
        rw [Option.toList_some, List.filterMap_cons_some hnumber, List.filterMap_nil]
        refine List.nodup_cons.mpr ⟨?_, hrest⟩
        -- The same number further on is the answer to a later call, and those differ.
        intro hagain
        rw [hcall] at hcalls hagain
        have hcalls' : calls = (before ++ [.number m]) ++
            callsOf settings text (after (before ++ [.number m])) es := by
          simpa using hcalls
        obtain ⟨between, m', rest, hbetween, -, hcount⟩ :=
          exists_number_of_mem h hothers hcalls' hagain
        have hsplit : calls = before ++ .number m ::
            callsOf settings text (after (before ++ [.number m])) es := by
          rw [hcalls', List.append_assoc]
          rfl
        have hfirst := nextNumber_of_group h hothers hsplit hm
        rw [hanswer] at hfirst
        rw [Option.some.inj hfirst, List.append_assoc] at hcount
        rw [hbetween] at hsplit
        exact numberText_ne hascending hm hsplit hcount

end

/-! ### The frames of a run -/

/-- A frame without the edits inside it. -/
def Frame.bare (f : Frame) : Frame := { f with edits := [] }

section

variable {settings : Settings} {text : Text} {s s' : Progress} {e : Hit Event}
  {es : List (Hit Event)} {allowed : Text → Text → Bool}

theorem exists_bare_of_mem_add {more : List Edit} {f : Frame} (hf : f ∈ (s.add more).stack) :
    ∃ g ∈ s.stack, g.bare = f.bare := by
  unfold Progress.add addEdits at hf
  cases hstack : s.stack with
  | nil => simp [hstack] at hf
  | cons top outer =>
    rw [hstack] at hf
    rcases List.mem_cons.mp hf with rfl | hf
    · exact ⟨top, by simp, rfl⟩
    · exact ⟨f, List.mem_cons_of_mem _ hf, rfl⟩

/-- An end opens no frame and leaves the register alone. -/
theorem frames_close {name : Text} {start stop : Nat}
    (h : (close settings text s name start stop).result = .ok s') :
    s'.register = s.register ∧ ∀ f ∈ s'.stack, ∃ g ∈ s.stack, g.bare = f.bare := by
  have hadd : ∀ {outer more : List Frame} {edits : List Edit} {equations : Nat},
      s.stack = more ++ outer →
      ∀ f ∈ ({ s with stack := outer, equations := equations }.add edits).stack,
        ∃ g ∈ s.stack, g.bare = f.bare := by
    intro outer more edits equations hstack f hf
    obtain ⟨g, hg, hbare⟩ := exists_bare_of_mem_add hf
    refine ⟨g, ?_, hbare⟩
    rw [hstack]
    exact List.mem_append_right _ hg
  rcases result_close_cases h with
    rfl | ⟨frame, outer, _, _, hstack, -, -, rfl⟩ | ⟨above, frame, outer, hstack, rfl⟩
  · exact ⟨rfl, fun f hf => ⟨f, hf, rfl⟩⟩
  · exact ⟨rfl, hadd (by rw [hstack, ← List.singleton_append])⟩
  · exact ⟨rfl, hadd (by rw [hstack, List.append_cons])⟩

theorem frames_advance (h : (advance allowed settings text s e).result = .ok s') :
    s'.register = registerAfter settings text s.register e ∧ ∀ f ∈ s'.stack,
      (∃ g ∈ s.stack, g.bare = f.bare) ∨ frame? settings text s.register e = some f.bare := by
  obtain ⟨start, stop, value⟩ := e
  cases value with
  | opening name =>
    simp only [advance] at h
    rw [bind_of_ok (result_reportNesting _ _ _ _)] at h
    cases h
    refine ⟨rfl, fun f hf => ?_⟩
    rcases List.mem_cons.mp hf with rfl | hf
    · refine .inr (congrArg some ?_)
      rw [Frame.bare, ← edits_frameAt settings s.register text name start stop]
    · exact .inl ⟨f, hf, rfl⟩
  | closing name =>
    obtain ⟨hregister, hframes⟩ := frames_close h
    exact ⟨hregister, fun f hf => .inl (hframes f hf)⟩
  | section_ =>
    cases h
    exact ⟨rfl, fun f hf => .inl ⟨f, hf, rfl⟩⟩
  | declaration command =>
    cases h
    exact ⟨rfl, fun f hf => .inl (exists_bare_of_mem_add hf)⟩

/-- **The frames of a run** are those that its events open. -/
theorem frames_run (h : (es.foldlM (advance allowed settings text) s).result = .ok s') :
    ∀ f ∈ s'.stack, (∃ g ∈ s.stack, g.bare = f.bare) ∨
      f.bare ∈ framesOf settings text s.register es := by
  -- The edits of an open frame grow with what is closed inside it: frames are compared bare.
  induction es generalizing s with
  | nil =>
    cases h
    exact fun f hf => .inl ⟨f, hf, rfl⟩
  | cons e es ih =>
    rw [List.foldlM_cons] at h
    obtain ⟨s₁, hstep, hrest⟩ := of_result_bind h
    obtain ⟨hregister, hframes⟩ := frames_advance hstep
    intro f hf
    rw [framesOf, ← hregister]
    rcases ih hrest f hf with ⟨g, hg, hbare⟩ | hlater
    · rcases hframes g hg with ⟨g', hg', hbare'⟩ | hopened
      · exact .inl ⟨g', hg', hbare'.trans hbare⟩
      · refine .inr (List.mem_append_left _ ?_)
        rw [hopened, hbare]
        exact List.mem_singleton_self _
    · exact .inr (List.mem_append_right _ hlater)

theorem framesOf_append (register : TheoremRegister) (es more : List (Hit Event)) :
    framesOf settings text register es <+: framesOf settings text register (es ++ more) := by
  induction es generalizing register with
  | nil => exact List.nil_prefix
  | cons e es ih => exact (List.prefix_append_right_inj _).mpr (ih _)

end

/-! ### Groups -/

/-- **Numbers of kinds that count together.**  Over every run of calls an instance gets the
    count of the group's instances since the counter was last set back, behind the section if
    the group counts by it.  In a document, whose frames are those that its events open, no two
    of them get the same number. -/
theorem numbers_of_group {p : TheoremKind} {sharers : List Text} {calls : List Call}
    (h : CountsTogether p sharers calls) (hothers : NoOthers p sharers calls) :
    (∀ before m rest, calls = before ++ .number m :: rest → m ∈ p.name :: sharers →
      ((after before).nextNumber m).1 =
        some (numberText p (sectionOf before) (drawn p sharers before + 1))) ∧
    ∀ settings text, calls = callsOf settings text .empty (events settings .empty text) →
      (∀ allowed equations front rest s, events settings .empty text = front ++ rest →
        (front.foldlM (advance allowed settings text) (.start .empty equations)).result = .ok s →
        ∀ f ∈ s.stack, f.bare ∈ framesOf settings text .empty (events settings .empty text)) ∧
      (numbersOf (p.name :: sharers)
        (framesOf settings text .empty (events settings .empty text))).Nodup := by
  constructor
  · intro before m rest hcalls hm
    exact nextNumber_of_group h hothers hcalls hm
  · intro settings text hcalls
    constructor
    · intro allowed equations front rest s hevents hrun f hf
      rw [hevents]
      apply (framesOf_append _ front rest).subset
      rcases frames_run hrun f hf with ⟨g, hg, -⟩ | hopened
      · cases hg
      · exact hopened
    · have hascending : Ascending calls := by
        rw [hcalls]
        exact ascending_callsOf
      exact nodup_numbersOf [] h hothers hascending hcalls

/-- Theorems and lemmas that count together by section, with a remark between them. -/
theorem numbers_of_group_section :
    let settings : Settings := ⟨defaultConverters, [], true, true⟩
    let text : Text :=
      "\\newtheorem{thm}{Theorem}[section]\\newtheorem{lem}[thm]{Lemma}\\section{A}" ++
      "\\begin{thm}x\\end{thm}\\begin{remark}y\\end{remark}\\begin{lem}z\\end{lem}"
    let thm : TheoremKind := ⟨"thm", "Theorem", 0, some "section", false, true⟩
    let declared : List Call := [.declare "thm" "Theorem" (some "section") false true,
      .declare "lem" "Lemma" (some "thm") true true, .section_ 1]
    let calls := declared ++ [.number "thm", .number "remark", .number "lem"]
    CountsTogether thm ["lem"] calls ∧ NoOthers thm ["lem"] calls ∧
      calls = callsOf settings text .empty (events settings .empty text) ∧
      ((after (declared ++ [.number "thm", .number "remark"])).nextNumber "lem").1 =
        some ("1.2" : Text) ∧
      (numbersOf ["thm", "lem"]
        (framesOf settings text .empty (events settings .empty text))).Nodup := by
  intro settings text thm declared calls
  have hgroup : CountsTogether thm ["lem"] calls := by
    refine ⟨?_, ?_, rfl, rfl, rfl, ?_, ?_⟩ <;> decide
  have hothers : NoOthers thm ["lem"] calls := by
    unfold NoOthers
    decide
  have hcalls : calls = callsOf settings text .empty (events settings .empty text) := by
    decide +kernel
  obtain ⟨hnumbers, hdocument⟩ := numbers_of_group hgroup hothers
  have hlemma := hnumbers (declared ++ [.number "thm", .number "remark"]) "lem" [] rfl (by decide)
  exact ⟨hgroup, hothers, hcalls, hlemma.trans (by decide), (hdocument settings text hcalls).2⟩

/-- **A name outside the group that counts with it** draws from its counter: here the first
    instance of the kind is shown as the second. -/
theorem numbers_of_group_outsider :
    let thm : TheoremKind := ⟨"thm", "Theorem", 0, none, false, true⟩
    let before : List Call := [.declare "thm" "Theorem" none false true,
      .declare "lem" "Lemma" (some "thm") true true, .number "lem",
      .declare "lem" "Lemma" (some "thm") true true]
    CountsTogether thm [] (before ++ [.number "thm"]) ∧ drawn thm [] before = 0 ∧
      ((after before).nextNumber "thm").1 = some ("2" : Text) ∧
      ((after before).nextNumber "thm").1 ≠
        some (numberText thm (sectionOf before) (drawn thm [] before + 1)) := by
  intro thm before
  refine ⟨⟨?_, ?_, rfl, rfl, rfl, ?_, ?_⟩, rfl, ?_, ?_⟩ <;> decide

end TexMark.Environment
