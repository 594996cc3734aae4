/-
  TexMark/Proofs/Environment/Events.lean
  ======================================
  **The marks that count.**  The scan for environments passes over many of the marks that it
  finds: those that are escaped, those inside an argument, a title or a declaration, names
  that it does not follow, starred sections.  Which marks count depends on the cursor and the
  register only, and never on the open frames:

    * `accepted` — the marks that count, as a list of events;
    * `advance` — what an event does to the scan, for any rule of nesting; it knows nothing of
      the cursor, and it splices the edits of a frame without asking whether they fit;
    * `step_eq_advance` — a step of the scan is the advance of its mark, if the mark counts and
      the edits of the innermost frame stand in order.
-/
import TexMark.Environment.Resolve
import TexMark.Proofs.Edits
import TexMark.Proofs.Notes
import Mathlib.Data.List.TakeWhile

namespace TexMark.Environment

open Noted

/-! ### Events -/

/-- What a mark that counts stands for. -/
inductive Event where
  | opening (name : Text)
  | closing (name : Text)
  /-- The heading of a section that is numbered. -/
  | section_
  | declaration (command : NewTheorem)
deriving DecidableEq, Repr

/-- The event of a mark: nothing if the mark is escaped, lies before the cursor, names an
    environment that is not followed, or is no full declaration. -/
def event? (settings : Settings) (text : Text) (cursor : Nat) (register : TheoremRegister)
    (h : Hit Token) : Option (Hit Event) :=
  if h.start < cursor ∨ Scan.isEscaped text h.start then none
  else match h.value with
    | .opening name =>
      if isTracked settings register name then some ⟨h.start, h.stop, .opening name⟩ else none
    | .closing name =>
      if isTracked settings register name then some ⟨h.start, h.stop, .closing name⟩ else none
    | .section_ starred => if starred then none else some ⟨h.start, h.stop, .section_⟩
    | .declaration => (NewTheorem.read? (text.drop h.start)).map fun r =>
        ⟨h.start, text.length - r.2.length, .declaration r.1⟩

/-- The register behind an event. -/
def registerAfter (settings : Settings) (text : Text) (register : TheoremRegister)
    (e : Hit Event) : TheoremRegister :=
  match e.value with
  | .opening name => (frameAt settings register text name e.start e.stop).2
  | .closing _ => register
  | .section_ => register.enterSection (register.sectionNumber + 1)
  | .declaration command => register.declare (TheoremRegister.kindOf command)

/-- The cursor behind an event: the scan goes on behind what was read with a beginning, and
    behind a declaration. -/
def cursorAfter (settings : Settings) (text : Text) (cursor : Nat) (register : TheoremRegister)
    (e : Hit Event) : Nat :=
  match e.value with
  | .opening name => (frameAt settings register text name e.start e.stop).1.contentStart
  | .closing _ => cursor
  | .section_ => cursor
  | .declaration _ => e.stop

/-- The events of the marks that count. -/
def accepted (settings : Settings) (text : Text) (cursor : Nat) (register : TheoremRegister) :
    List (Hit Token) → List (Hit Event)
  | [] => []
  | h :: hs =>
    match event? settings text cursor register h with
    | none => accepted settings text cursor register hs
    | some e =>
      e :: accepted settings text (cursorAfter settings text cursor register e)
        (registerAfter settings text register e) hs

/-- The events of a document. -/
def events (settings : Settings) (register : TheoremRegister) (text : Text) : List (Hit Event) :=
  accepted settings text 0 register (Scan.hits token text)

/-! ### What an event does -/

/-- Reports an environment that a rule of nesting does not allow where it begins. -/
def reportNesting (allowed : Text → Text → Bool) (outer? : Option Text) (name : Text)
    (start : Nat) : Noted Unit :=
  match outer? with
  | none => pure ()
  | some outer =>
    if allowed outer name then pure ()
    else report .invalidNesting (name ++ " cannot be nested inside " ++ outer) start

/-- Reports an end whose environment is not open. -/
def reportStray (innermost? : Option Text) (name : Text) (start : Nat) : Noted Unit :=
  let expected := match innermost? with
    | none => "no open environment"
    | some inner => Markup.endMarker inner
  report .environmentMismatch
    (Markup.endMarker name ++ " found where " ++ expected ++ " was expected") start

theorem result_reportNesting (allowed : Text → Text → Bool) (outer? : Option Text) (name : Text)
    (start : Nat) : (reportNesting allowed outer? name start).result = .ok () := by
  unfold reportNesting
  split
  · rfl
  · split <;> rfl

/-- Takes the end of an environment that the scan follows. -/
def close (settings : Settings) (text : Text) (s : Progress) (name : Text) (start stop : Nat) :
    Noted Progress :=
  let above := s.stack.takeWhile fun f => f.name != name
  match s.stack.drop above.length with
  | [] => do
    reportStray (s.stack.head?.map (·.name)) name start
    return s
  | frame :: outer =>
    if above.isEmpty then do
      let (converted, equations) ← frame.convert settings s.register
        (Edit.splice text frame.contentStart start frame.edits) s.equations
      return { s with stack := outer, equations := equations }.add [⟨frame.start, stop, converted⟩]
    else do
      reportUnwound name above
      return { s with stack := outer }.add (surrendered (above ++ [frame]))

/-- Takes an event. The cursor stays where it is. -/
def advance (allowed : Text → Text → Bool) (settings : Settings) (text : Text) (s : Progress)
    (e : Hit Event) : Noted Progress :=
  match e.value with
  | .opening name => do
    reportNesting allowed (s.stack.head?.map (·.name)) name e.start
    return { s with
      stack := (frameAt settings s.register text name e.start e.stop).1 :: s.stack
      register := registerAfter settings text s.register e }
  | .closing name => close settings text s name e.start e.stop
  | .section_ => pure { s with register := registerAfter settings text s.register e }
  | .declaration _ =>
    pure { s.add [⟨e.start, e.stop, []⟩] with
      register := registerAfter settings text s.register e }

/-! ### Ends -/

section

variable {settings : Settings} {text : Text} {s : Progress} {name : Text} {start stop : Nat}

/-- Either no open environment has a name, or one is the innermost of those that have it. -/
theorem innermost_cases {α : Type} (nameOf : α → Text) (name : Text) (opened : List α) :
    (∀ a ∈ opened, nameOf a ≠ name) ∨
      ∃ above a outer, opened = above ++ a :: outer ∧ (∀ b ∈ above, nameOf b ≠ name) ∧
        nameOf a = name := by
  induction opened with
  | nil => exact .inl nofun
  | cons a opened ih =>
    by_cases ha : nameOf a = name
    · exact .inr ⟨[], a, opened, rfl, nofun, ha⟩
    · rcases ih with hnone | ⟨above, b, outer, rfl, habove, hname⟩
      · exact .inl (List.forall_mem_cons.mpr ⟨ha, hnone⟩)
      · exact .inr ⟨a :: above, b, outer, rfl, List.forall_mem_cons.mpr ⟨ha, habove⟩, hname⟩

theorem takeWhile_of_innermost {α : Type} (nameOf : α → Text) {above outer : List α} {a : α}
    (habove : ∀ b ∈ above, nameOf b ≠ name) (hname : nameOf a = name) :
    (above ++ a :: outer).takeWhile (fun b => nameOf b != name) = above := by
  rw [List.takeWhile_append_of_pos fun b hb => by simpa using habove b hb]
  simp [hname]

/-- An end whose environment is not open is reported. -/
theorem close_stray (h : ∀ f ∈ s.stack, f.name ≠ name) :
    close settings text s name start stop = (do
      reportStray (s.stack.head?.map (·.name)) name start
      return s) := by
  have htake : s.stack.takeWhile (fun f => f.name != name) = s.stack :=
    List.takeWhile_eq_self_iff.mpr fun f hf => bne_iff_ne.mpr (h f hf)
  simp only [close, htake, List.drop_length]

/-- The end of the innermost environment converts it. -/
theorem close_convert {frame : Frame} {outer : List Frame} (hstack : s.stack = frame :: outer)
    (hname : frame.name = name) :
    close settings text s name start stop = (do
      let (converted, equations) ← frame.convert settings s.register
        (Edit.splice text frame.contentStart start frame.edits) s.equations
      return { s with stack := outer, equations := equations }.add
        [⟨frame.start, stop, converted⟩]) := by
  have htake : (frame :: outer).takeWhile (fun f => f.name != name) = [] := by simp [hname]
  simp only [close, hstack, htake, List.length_nil, List.drop_zero, List.isEmpty_nil, if_true]

/-- The end of an environment around others unwinds them. -/
theorem close_unwind {above outer : List Frame} {frame : Frame}
    (hstack : s.stack = above ++ frame :: outer) (hne : above ≠ [])
    (habove : ∀ f ∈ above, f.name ≠ name) (hname : frame.name = name) :
    close settings text s name start stop = (do
      reportUnwound name above
      return { s with stack := outer }.add (surrendered (above ++ [frame]))) := by
  have htake : (above ++ frame :: outer).takeWhile (fun f => f.name != name) = above :=
    takeWhile_of_innermost (fun f : Frame => f.name) habove hname
  simp only [close, hstack, htake, List.drop_left, List.isEmpty_iff, hne, if_false]

theorem result_close_stray (h : ∀ f ∈ s.stack, f.name ≠ name) :
    (close settings text s name start stop).result = .ok s := by
  rw [close_stray h]
  rfl

theorem result_close_convert {frame : Frame} {outer : List Frame} {converted : Text}
    {equations : Nat} (hstack : s.stack = frame :: outer) (hname : frame.name = name)
    (hconvert : (frame.convert settings s.register
      (Edit.splice text frame.contentStart start frame.edits) s.equations).result =
        .ok (converted, equations)) :
    (close settings text s name start stop).result =
      .ok ({ s with stack := outer, equations := equations }.add
        [⟨frame.start, stop, converted⟩]) := by
  rw [close_convert hstack hname, bind_of_ok hconvert]
  rfl

theorem result_close_unwind {above outer : List Frame} {frame : Frame}
    (hstack : s.stack = above ++ frame :: outer) (hne : above ≠ [])
    (habove : ∀ f ∈ above, f.name ≠ name) (hname : frame.name = name) :
    (close settings text s name start stop).result =
      .ok ({ s with stack := outer }.add (surrendered (above ++ [frame]))) := by
  rw [close_unwind hstack hne habove hname, reportUnwound, forM_report]
  rfl

end

/-! ### Steps are advances -/

/-- The scan with its cursor at another place. -/
def Progress.at (s : Progress) (cursor : Nat) : Progress := { s with cursor := cursor }

@[simp] theorem Progress.at_cursor (s : Progress) : s.at s.cursor = s := rfl

/-- The innermost frame's edits **stand in order** up to an offset. -/
def Progress.TopOrdered (s : Progress) (stop : Nat) : Prop :=
  ∀ f ∈ s.stack.head?, Edit.Ordered f.contentStart stop f.edits

theorem convertFrame_eq (settings : Settings) (text : Text) (s : Progress) {frame : Frame}
    (outer : List Frame) {start : Nat} (stop : Nat)
    (h : Edit.Ordered frame.contentStart start frame.edits) :
    convertFrame settings text s frame outer start stop = do
      let (converted, equations) ← frame.convert settings s.register
        (Edit.splice text frame.contentStart start frame.edits) s.equations
      return { s with stack := outer, equations := equations }.add
        [⟨frame.start, stop, converted⟩] := by
  have hcontent : editedWithin text frame.contentStart start frame.edits =
      pure (Edit.splice text frame.contentStart start frame.edits) := by
    simp only [editedWithin, h.applyWithin_eq_splice, Except.mapError]
    rfl
  rw [convertFrame, hcontent, pure_bind]

theorem openFrame_eq_advance {settings : Settings} {text : Text} {s : Progress} {name : Text}
    (start stop : Nat) (htracked : isTracked settings s.register name) :
    openFrame settings text s name start stop = (do
      let s' ← advance mayNest settings text s ⟨start, stop, .opening name⟩
      return s'.at (frameAt settings s.register text name start stop).1.contentStart) := by
  cases hstack : s.stack with
  | nil => simp [openFrame, advance, htracked, hstack, reportNesting, registerAfter, Progress.at]
  | cons outer fs =>
    by_cases hnest : mayNest outer.name name
    · simp [openFrame, advance, htracked, hstack, reportNesting, hnest, registerAfter, Progress.at]
    · simp [openFrame, advance, htracked, hstack, reportNesting, hnest, registerAfter, Progress.at]

theorem closeFrame_eq_close {settings : Settings} {text : Text} {s : Progress} {name : Text}
    {start : Nat} (stop : Nat) (htracked : isTracked settings s.register name)
    (htop : s.TopOrdered start) :
    closeFrame settings text s name start stop = close settings text s name start stop := by
  unfold closeFrame close
  rw [if_neg (by simp [htracked])]
  dsimp only
  cases hdrop : s.stack.drop (s.stack.takeWhile fun f => f.name != name).length with
  | nil => cases hstack : s.stack <;> rfl
  | cons frame outer =>
    dsimp only
    split
    · rename_i habove
      rw [List.isEmpty_iff.mp habove, List.length_nil, List.drop_zero] at hdrop
      exact convertFrame_eq settings text s outer stop (htop frame (by simp [hdrop]))
    · rfl

/-- An end leaves the cursor alone. -/
theorem close_at (settings : Settings) (text : Text) (s : Progress) (name : Text)
    (start stop cursor : Nat) :
    close settings text (s.at cursor) name start stop =
      (·.at cursor) <$> close settings text s name start stop := by
  rcases innermost_cases (·.name) name s.stack with hnone | ⟨above, frame, outer, hstack, habove, hname⟩
  · rw [close_stray hnone, close_stray (s := s.at cursor) hnone]
    simp [Progress.at]
  · by_cases hne : above = []
    · subst hne
      rw [close_convert hstack hname, close_convert (s := s.at cursor) hstack hname]
      simp [Progress.at, Progress.add]
    · rw [close_unwind hstack hne habove hname,
        close_unwind (s := s.at cursor) hstack hne habove hname]
      simp [Progress.at, Progress.add]

/-- No event looks at the cursor. -/
theorem advance_at (allowed : Text → Text → Bool) (settings : Settings) (text : Text)
    (s : Progress) (e : Hit Event) (cursor : Nat) :
    advance allowed settings text (s.at cursor) e =
      (·.at cursor) <$> advance allowed settings text s e := by
  obtain ⟨start, stop, value⟩ := e
  cases value with
  | opening name => simp [advance, Progress.at, registerAfter]
  | closing name => exact close_at settings text s name start stop cursor
  | section_ => rfl
  | declaration command => rfl

/-- **A step of the scan** takes the event of its mark, if there is one, and sets the cursor
    behind it. -/
theorem step_eq_advance (settings : Settings) (text : Text) (s : Progress) (h : Hit Token)
    (htop : s.cursor ≤ h.start → s.TopOrdered h.start) :
    step settings text s h = match event? settings text s.cursor s.register h with
      | none => pure s
      | some e => do
        let s' ← advance mayNest settings text s e
        return s'.at (cursorAfter settings text s.cursor s.register e) := by
  unfold step event?
  split
  · rfl
  · rename_i hskip
    obtain ⟨start, stop, value⟩ := h
    dsimp only at hskip htop ⊢
    cases value with
    | opening name =>
      by_cases htracked : isTracked settings s.register name
      · simp only [htracked, if_true]
        exact openFrame_eq_advance start stop htracked
      · simp [htracked, openFrame]
    | closing name =>
      by_cases htracked : isTracked settings s.register name
      · simp only [htracked, if_true]
        rw [closeFrame_eq_close stop htracked (htop (by omega))]
        change _ = close settings text s name start stop >>= fun s' => pure (s'.at s.cursor)
        rw [bind_pure_comp, ← close_at, Progress.at_cursor]
      · simp [htracked, closeFrame]
    | section_ starred => cases starred <;> rfl
    | declaration =>
      dsimp only
      cases NewTheorem.read? (text.drop start) <;> rfl

end TexMark.Environment
