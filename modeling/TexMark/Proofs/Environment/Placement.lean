/-
  TexMark/Proofs/Environment/Placement.lean
  =========================================
  **Where the edits of frames lie.**  An open frame keeps the edits of the environments inside
  it, and edits travel from frame to frame when frames are given up.  At every moment they
  stand in line (`InLine`): those outside all frames lie before the outermost frame, and those
  of each frame lie behind the beginning of its content and before the frame inside it.  So
  the window in which the edits of a frame are applied always holds them, and the scan never
  meets a fault:

    * `exists_advance` — what an event keeps;
    * `exists_scan` — what a whole scan keeps, and that it is the run of its events;
    * `exists_result_resolve` — every document has a result.
-/
import TexMark.Proofs.Environment.Events
import TexMark.Proofs.Passes

namespace TexMark.Environment

open Noted

/-! ### Edits in line -/

/-- The edits of the open frames, the innermost first, and those outside all frames **stand in
    line** up to an offset. -/
def InLine : (stack : List Frame) → (outside : List Edit) → (limit : Nat) → Prop
  | [], outside, limit => Edit.Ordered 0 limit outside
  | f :: fs, outside, limit => f.start < f.contentStart ∧ f.contentStart ≤ limit ∧
      Edit.Ordered f.contentStart limit f.edits ∧ InLine fs outside f.start

namespace InLine

variable {stack outer fs : List Frame} {f : Frame} {outside : List Edit} {limit limit' : Nat}

theorem mono (h : InLine stack outside limit) (hlimit : limit ≤ limit') :
    InLine stack outside limit' := by
  cases stack with
  | nil => exact Edit.Ordered.mono h (Nat.le_refl _) hlimit
  | cons f fs =>
    obtain ⟨hstart, hcontent, hedits, houter⟩ := h
    exact ⟨hstart, hcontent.trans hlimit, hedits.mono (Nat.le_refl _) hlimit, houter⟩

/-- The edits outside all frames lie before the limit, too. -/
theorem ordered_outside (h : InLine stack outside limit) : Edit.Ordered 0 limit outside := by
  induction stack generalizing limit with
  | nil => exact h
  | cons f fs ih =>
    obtain ⟨hstart, hcontent, -, houter⟩ := h
    exact (ih houter).mono (Nat.le_refl _) (by omega)

/-- And so do those of every frame. -/
theorem ordered_of_mem (h : InLine stack outside limit) (hf : f ∈ stack) :
    Edit.Ordered f.contentStart limit f.edits := by
  induction stack generalizing limit with
  | nil => cases hf
  | cons g fs ih =>
    obtain ⟨hstart, hcontent, hedits, houter⟩ := h
    rcases List.mem_cons.mp hf with rfl | hf
    · exact hedits
    · exact (ih houter hf).mono (Nat.le_refl _) (by omega)

/-- A frame opens behind the limit. -/
theorem push (h : InLine stack outside limit) (hlimit : limit ≤ f.start)
    (hstart : f.start < f.contentStart) (hedits : f.edits = []) :
    InLine (f :: stack) outside f.contentStart :=
  ⟨hstart, Nat.le_refl _, by rw [hedits]; exact .nil, h.mono hlimit⟩

/-- An edit goes to the innermost frame. -/
theorem add (h : InLine stack outside limit) {e : Edit} (hlimit : limit ≤ e.start)
    (he : e.start < e.stop) :
    InLine (addEdits stack outside [e]).1 (addEdits stack outside [e]).2 e.stop := by
  cases stack with
  | nil => exact Edit.Ordered.concat h hlimit (Nat.zero_le _) he (Nat.le_refl _)
  | cons f fs =>
    obtain ⟨hstart, hcontent, hedits, houter⟩ := h
    refine ⟨hstart, ?_, hedits.concat hlimit ?_ he (Nat.le_refl _), houter⟩
    · change f.contentStart ≤ e.stop
      omega
    · omega

/-- A frame that is given up leaves its edits to the frame around it. -/
theorem surrender (h : InLine (f :: fs) outside limit) :
    InLine (addEdits fs outside f.edits).1 (addEdits fs outside f.edits).2 limit := by
  obtain ⟨hstart, hcontent, hedits, houter⟩ := h
  cases fs with
  | nil => exact Edit.Ordered.append houter hedits (by omega) (Nat.zero_le _) (by omega)
  | cons g gs =>
    obtain ⟨hstart', hcontent', hedits', houter'⟩ := houter
    refine ⟨hstart', ?_, hedits'.append hedits (by omega) ?_ (by omega), houter'⟩
    · change g.contentStart ≤ limit
      omega
    · omega

end InLine

/-! ### Frames that are given up -/

theorem surrendered_foldl (frames : List Frame) (inner : List Edit) :
    frames.foldl (fun inner f => f.edits ++ inner) inner = surrendered frames ++ inner := by
  unfold surrendered
  induction frames generalizing inner with
  | nil => rfl
  | cons f frames ih =>
    rw [List.foldl_cons, List.foldl_cons, ih, ih (f.edits ++ []), List.append_nil,
      List.append_assoc]

/-- The edits of the innermost frame come last. -/
theorem surrendered_cons (f : Frame) (frames : List Frame) :
    surrendered (f :: frames) = surrendered frames ++ f.edits := by
  rw [surrendered, List.foldl_cons, surrendered_foldl, List.append_nil]

/-- Several frames are given up one after the other. -/
theorem InLine.surrenderAll {outer : List Frame} {outside : List Edit} {limit : Nat}
    (above : List Frame) (f : Frame) (h : InLine (f :: above ++ outer) outside limit) :
    InLine (addEdits outer outside (surrendered (f :: above))).1
      (addEdits outer outside (surrendered (f :: above))).2 limit := by
  induction above generalizing f with
  | nil => simpa [surrendered_cons, surrendered] using InLine.surrender h
  | cons g above ih =>
    have hg : surrendered (f :: g :: above) =
        surrendered ({ g with edits := g.edits ++ f.edits } :: above) := by
      simp only [surrendered_cons, List.append_assoc]
    rw [hg]
    exact ih _ (InLine.surrender h)

/-! ### Beginnings -/

theorem frameAt_shape (settings : Settings) (register : TheoremRegister) (text name : Text)
    (start stop : Nat) :
    let f := (frameAt settings register text name start stop).1
    f.name = name ∧ f.start = start ∧ f.edits = [] := by
  unfold frameAt
  dsimp only
  split
  · split <;> exact ⟨rfl, rfl, rfl⟩
  · split
    · split <;> exact ⟨rfl, rfl, rfl⟩
    · exact ⟨rfl, rfl, rfl⟩

section

variable (settings : Settings) (register : TheoremRegister) (text name : Text) (start stop : Nat)

@[simp] theorem name_frameAt : (frameAt settings register text name start stop).1.name = name :=
  (frameAt_shape settings register text name start stop).1

@[simp] theorem start_frameAt :
    (frameAt settings register text name start stop).1.start = start :=
  (frameAt_shape settings register text name start stop).2.1

@[simp] theorem edits_frameAt : (frameAt settings register text name start stop).1.edits = [] :=
  (frameAt_shape settings register text name start stop).2.2

end

/-- The content of a frame begins behind its beginning. -/
theorem contentStart_frameAt (settings : Settings) (register : TheoremRegister) {text : Text}
    (name : Text) (start : Nat) {stop : Nat} (hstop : stop ≤ text.length) :
    stop ≤ (frameAt settings register text name start stop).1.contentStart ∧
      (frameAt settings register text name start stop).1.contentStart ≤ text.length := by
  -- what is read behind the beginning is an end of the text
  have hread : ∀ after : Text, after <:+ text.drop stop →
      stop ≤ text.length - after.length ∧ text.length - after.length ≤ text.length := by
    intro after hafter
    have := hafter.length_le
    rw [List.length_drop] at this
    omega
  unfold frameAt
  dsimp only
  split
  · split
    · rename_i hgroup
      exact hread _ (Group.read?_behind hgroup).1
    · exact ⟨Nat.le_refl _, hstop⟩
  · split
    · split
      · rename_i hgroup
        exact hread _ ((Group.read?_behind hgroup).1.trans (List.dropWhile_suffix _))
      · exact ⟨Nat.le_refl _, hstop⟩
    · exact ⟨Nat.le_refl _, hstop⟩

/-! ### Conversions -/

theorem exists_result_convert (settings : Settings) (register : TheoremRegister) (frame : Frame)
    (content : Text) (equations : Nat) :
    ∃ r, (frame.convert settings register content equations).result = .ok r := by
  unfold Frame.convert
  split
  · rename_i converter _
    cases converter <;> exact ⟨_, rfl⟩
  · split <;> exact ⟨_, rfl⟩

/-- **What an end does**: nothing, if its environment is not open; otherwise it converts the
    innermost environment, or gives up those inside its own. -/
theorem result_close_cases {settings : Settings} {text : Text} {s s' : Progress} {name : Text}
    {start stop : Nat} (h : (close settings text s name start stop).result = .ok s') :
    s' = s ∨
    (∃ frame outer converted equations, s.stack = frame :: outer ∧ frame.name = name ∧
      (frame.convert settings s.register
        (Edit.splice text frame.contentStart start frame.edits) s.equations).result =
          .ok (converted, equations) ∧
      s' = { s with stack := outer, equations := equations }.add
        [⟨frame.start, stop, converted⟩]) ∨
    (∃ above frame outer, s.stack = above ++ frame :: outer ∧
      s' = { s with stack := outer }.add (surrendered (above ++ [frame]))) := by
  rcases innermost_cases (·.name) name s.stack with
    hnone | ⟨above, frame, outer, hstack, habove, hname⟩
  · rw [result_close_stray hnone] at h
    cases h
    exact .inl rfl
  · by_cases hne : above = []
    · subst hne
      obtain ⟨⟨converted, equations⟩, hconvert⟩ := exists_result_convert settings s.register frame
        (Edit.splice text frame.contentStart start frame.edits) s.equations
      rw [result_close_convert hstack hname hconvert] at h
      cases h
      exact .inr (.inl ⟨frame, outer, converted, equations, hstack, hname, hconvert, rfl⟩)
    · rw [result_close_unwind hstack hne habove hname] at h
      cases h
      exact .inr (.inr ⟨above, frame, outer, hstack, rfl⟩)

/-! ### Events keep edits in line -/

/-- An end keeps the edits in line, whatever it does. -/
theorem exists_close (settings : Settings) (text : Text) {s : Progress} (name : Text)
    {start stop : Nat} (hstop : start < stop) (hs : InLine s.stack s.edits start) :
    ∃ s', (close settings text s name start stop).result = .ok s' ∧
      s'.register = s.register ∧ InLine s'.stack s'.edits stop := by
  rcases innermost_cases (·.name) name s.stack with hnone | ⟨above, frame, outer, hstack, habove, hname⟩
  · exact ⟨s, result_close_stray hnone, rfl, hs.mono (Nat.le_of_lt hstop)⟩
  · rw [hstack] at hs
    by_cases hne : above = []
    · subst hne
      obtain ⟨hframe, hcontent, -, houter⟩ := hs
      obtain ⟨⟨converted, equations⟩, hconvert⟩ := exists_result_convert settings s.register frame
        (Edit.splice text frame.contentStart start frame.edits) s.equations
      refine ⟨_, result_close_convert hstack hname hconvert, rfl, ?_⟩
      refine houter.add (Nat.le_refl _) ?_
      change frame.start < stop
      omega
    · refine ⟨_, result_close_unwind hstack hne habove hname, rfl, ?_⟩
      obtain ⟨f, above, rfl⟩ := List.exists_cons_of_ne_nil hne
      have hall : InLine (f :: (above ++ [frame]) ++ outer) s.edits start := by simpa using hs
      exact (InLine.surrenderAll _ _ hall).mono (Nat.le_of_lt hstop)

/-- **What an event keeps.**  If the edits are in line up to an event, they are in line behind
    it, up to where the scan goes on. -/
theorem exists_advance (allowed : Text → Text → Bool) (settings : Settings) {text : Text}
    {s : Progress} {e : Hit Event} (hlt : e.start < e.stop) (hsize : e.stop ≤ text.length)
    (hs : InLine s.stack s.edits e.start) :
    ∃ s', (advance allowed settings text s e).result = .ok s' ∧
      s'.register = registerAfter settings text s.register e ∧
      ∀ limit, e.stop ≤ limit → cursorAfter settings text s.cursor s.register e ≤ limit →
        InLine s'.stack s'.edits limit := by
  obtain ⟨start, stop, value⟩ := e
  dsimp only at hlt hsize hs
  cases value with
  | opening name =>
    have hcontent := (contentStart_frameAt settings s.register name start hsize).1
    have hresult : (advance allowed settings text s ⟨start, stop, .opening name⟩).result =
        .ok { s with
          stack := (frameAt settings s.register text name start stop).1 :: s.stack
          register := registerAfter settings text s.register ⟨start, stop, .opening name⟩ } := by
      simp only [advance]
      rw [bind_of_ok (result_reportNesting _ _ _ _)]
      rfl
    refine ⟨_, hresult, rfl, ?_⟩
    intro limit _ hlimit
    have hline := hs.push (f := (frameAt settings s.register text name start stop).1)
      (by simp) (by rw [start_frameAt]; omega) (by simp)
    exact hline.mono hlimit
  | closing name =>
    obtain ⟨s', hs', hregister, hline⟩ := exists_close settings text name hlt hs
    exact ⟨s', hs', hregister, fun limit hlimit _ => hline.mono hlimit⟩
  | section_ =>
    exact ⟨_, rfl, rfl, fun limit hlimit _ => hs.mono (Nat.le_trans (Nat.le_of_lt hlt) hlimit)⟩
  | declaration command =>
    exact ⟨_, rfl, rfl, fun limit hlimit _ => (hs.add (Nat.le_refl _) hlt).mono hlimit⟩

/-! ### The scan -/

/-- An event begins where its mark does, and takes some characters of the text. -/
theorem event?_spec {settings : Settings} {text : Text} {cursor : Nat}
    {register : TheoremRegister} {h : Hit Token} {e : Hit Event} (hmem : h ∈ Scan.hits token text)
    (he : event? settings text cursor register h = some e) :
    cursor ≤ h.start ∧ e.start = h.start ∧ e.start < e.stop ∧ e.stop ≤ text.length ∧
      (e.stop = h.stop ∨ e.stop = cursorAfter settings text cursor register e) := by
  obtain ⟨-, hlt, hstop⟩ := Scan.hit_spec advances_token hmem
  unfold event? at he
  split at he
  · cases he
  · rename_i hskip
    have hcursor : cursor ≤ h.start := by omega
    split at he
    · split at he <;> cases he
      exact ⟨hcursor, rfl, hlt, hstop, .inl rfl⟩
    · split at he <;> cases he
      exact ⟨hcursor, rfl, hlt, hstop, .inl rfl⟩
    · split at he <;> cases he
      exact ⟨hcursor, rfl, hlt, hstop, .inl rfl⟩
    · obtain ⟨⟨command, after⟩, hread, heq⟩ := Option.map_eq_some_iff.mp he
      cases heq
      have := (NewTheorem.read?_behind hread).2
      rw [List.length_drop] at this
      exact ⟨hcursor, rfl, by change h.start < text.length - after.length; omega,
        Nat.sub_le _ _, .inr rfl⟩

/-- The scan has **placed** the edits of the marks taken so far: they stand in line up to
    every offset that lies behind the cursor and behind these marks. -/
structure Placed (size : Nat) (taken : List (Hit Token)) (s : Progress) : Prop where
  inLine : ∀ limit, s.cursor ≤ limit → (∀ a ∈ taken, a.stop ≤ limit) →
    InLine s.stack s.edits limit
  cursor_le : s.cursor ≤ size

namespace Placed

variable {settings : Settings} {text : Text} {taken : List (Hit Token)} {s : Progress}
  {h : Hit Token}

theorem start (size : Nat) (register : TheoremRegister) (equations : Nat) :
    Placed size [] (.start register equations) :=
  ⟨fun _ _ _ => Edit.Ordered.nil, Nat.zero_le _⟩

theorem skip {size : Nat} (hs : Placed size taken s) : Placed size (taken ++ [h]) s :=
  ⟨fun limit hcursor hlimit =>
    hs.inLine limit hcursor fun a ha => hlimit a (List.mem_append_left _ ha), hs.cursor_le⟩

/-- The next mark that the scan looks at lies behind all edits. -/
theorem inLine_start {size : Nat} (hs : Placed size taken s)
    (htaken : taken ++ [h] <+: Scan.hits token text) (hcursor : s.cursor ≤ h.start) :
    InLine s.stack s.edits h.start :=
  hs.inLine h.start hcursor (Hit.stop_le_of_prefix (Scan.pairwise_hits token text) htaken)

theorem topOrdered {size : Nat} (hs : Placed size taken s)
    (htaken : taken ++ [h] <+: Scan.hits token text) (hcursor : s.cursor ≤ h.start) :
    s.TopOrdered h.start := fun _ hf =>
  (hs.inLine_start htaken hcursor).ordered_of_mem (List.mem_of_mem_head? hf)

end Placed

theorem cursorAfter_le {settings : Settings} {text : Text} {cursor : Nat}
    {register : TheoremRegister} {e : Hit Event} (hcursor : cursor ≤ text.length)
    (he : e.stop ≤ text.length) :
    cursorAfter settings text cursor register e ≤ text.length := by
  unfold cursorAfter
  split
  · rename_i name _
    exact (contentStart_frameAt settings register name e.start he).2
  · exact hcursor
  · exact hcursor
  · exact he

/-- A mark that counts keeps the edits placed. -/
theorem Placed.advance {settings : Settings} {text : Text} {taken : List (Hit Token)}
    {s : Progress} {h : Hit Token} {e : Hit Event} (hs : Placed text.length taken s)
    (htaken : taken ++ [h] <+: Scan.hits token text)
    (he : event? settings text s.cursor s.register h = some e) :
    ∃ s', (Environment.advance mayNest settings text s e).result = .ok s' ∧
      s'.register = registerAfter settings text s.register e ∧
      Placed text.length (taken ++ [h])
        (s'.at (cursorAfter settings text s.cursor s.register e)) := by
  have hmem : h ∈ Scan.hits token text :=
    htaken.subset (List.mem_append_right _ (List.mem_singleton_self h))
  obtain ⟨hcursor, hstart, hlt, hsize, hstop⟩ := event?_spec hmem he
  have hline := hs.inLine_start htaken hcursor
  rw [← hstart] at hline
  obtain ⟨s', hs', hregister, hline'⟩ := exists_advance mayNest settings hlt hsize hline
  refine ⟨s', hs', hregister, fun limit hafter hlimit => hline' limit ?_ hafter,
    cursorAfter_le hs.cursor_le hsize⟩
  rcases hstop with hstop | hstop
  · rw [hstop]
    exact hlimit h (List.mem_append_right _ (List.mem_singleton_self h))
  · rw [hstop]
    exact hafter

/-- **What a scan keeps.**  It comes to its end with all edits placed, and it is the run of its
    events. -/
theorem exists_scan (settings : Settings) {text : Text} (todo : List (Hit Token)) :
    ∀ (taken : List (Hit Token)) (s : Progress), taken ++ todo <+: Scan.hits token text →
      Placed text.length taken s →
      ∃ s', (todo.foldlM (step settings text) s).result = .ok s' ∧
        Placed text.length (taken ++ todo) s' ∧
        (·.at 0) <$> todo.foldlM (step settings text) s =
          (accepted settings text s.cursor s.register todo).foldlM
            (advance mayNest settings text) (s.at 0) := by
  induction todo with
  | nil =>
    intro taken s _ hs
    exact ⟨s, rfl, by simpa using hs, rfl⟩
  | cons h todo ih =>
    intro taken s htaken hs
    have hassoc : taken ++ h :: todo = taken ++ [h] ++ todo := by simp
    rw [hassoc] at htaken ⊢
    have hbefore := (List.prefix_append (taken ++ [h]) todo).trans htaken
    rw [List.foldlM_cons, accepted,
      step_eq_advance settings text s h fun hcursor => hs.topOrdered hbefore hcursor]
    cases he : event? settings text s.cursor s.register h with
    | none =>
      rw [pure_bind]
      exact ih (taken ++ [h]) s htaken hs.skip
    | some e =>
      obtain ⟨s₁, hs₁, hregister, hplaced⟩ := hs.advance hbefore he
      obtain ⟨s', hs', hplaced', hrun⟩ := ih (taken ++ [h]) _ htaken hplaced
      refine ⟨s', ?_, hplaced', ?_⟩
      · dsimp only
        rw [bind_assoc, bind_of_ok hs₁, pure_bind]
        exact hs'
      · dsimp only
        rw [List.foldlM_cons, advance_at, bind_map_left, bind_assoc, map_bind]
        apply bind_congr_of_result
        intro s₂ hs₂
        rw [hs₁] at hs₂
        cases hs₂
        rw [pure_bind, hrun, ← hregister]
        rfl

/-! ### Documents -/

/-- The reports of environments that the text never closes. -/
def unclosedReports (stack : List Frame) : List Diagnostic :=
  stack.map fun f =>
    ⟨.unmatchedEnvironment, Markup.beginMarker f.name ++ " is never closed", f.start⟩

/-- What the scan leaves at the end of the text. -/
def conclude (text : Text) (s : Progress) : Noted Resolved :=
  ⟨unclosedReports s.stack,
    .ok ⟨Edit.splice text 0 text.length (s.edits ++ surrendered s.stack), s.register,
      s.equations⟩⟩

/-- The run of the events of a document, with any rule of nesting. -/
def run (allowed : Text → Text → Bool) (settings : Settings) (register : TheoremRegister)
    (equations : Nat) (text : Text) : Noted Progress :=
  (events settings register text).foldlM (advance allowed settings text)
    (.start register equations)

/-- The conversion of a document by the run of its events. -/
def resolveUnder (allowed : Text → Text → Bool) (settings : Settings)
    (register : TheoremRegister) (equations : Nat) (text : Text) : Noted Resolved :=
  run allowed settings register equations text >>= conclude text

/-- The end of the text gives all frames up. -/
theorem InLine.ordered_surrendered {stack : List Frame} {outside : List Edit} {limit : Nat}
    (h : InLine stack outside limit) :
    Edit.Ordered 0 limit (outside ++ surrendered stack) := by
  cases stack with
  | nil => simpa [surrendered] using h.ordered_outside
  | cons f fs =>
    have hall : InLine (f :: fs ++ []) outside limit := by simpa using h
    exact InLine.surrenderAll fs f hall

theorem finish_eq (s : Progress) : finish s =
    ⟨unclosedReports s.stack, .ok { s with stack := [], edits := s.edits ++ surrendered s.stack }⟩ := by
  rw [finish, forM_report]
  exact Noted.ext (List.append_nil _) rfl

/-- The whole scan of a document. -/
theorem exists_scan_start (settings : Settings) (register : TheoremRegister) (equations : Nat)
    (text : Text) :
    ∃ s, ((Scan.hits token text).foldlM (step settings text) (.start register equations)).result =
        .ok s ∧
      Edit.Ordered 0 text.length (s.edits ++ surrendered s.stack) ∧
      (·.at 0) <$> (Scan.hits token text).foldlM (step settings text)
          (.start register equations) = run mayNest settings register equations text := by
  obtain ⟨s, hs, hplaced, hrun⟩ := exists_scan settings (Scan.hits token text) []
    (.start register equations) (List.prefix_refl _) (.start _ _ _)
  refine ⟨s, hs, ?_, hrun⟩
  exact (hplaced.inLine _ hplaced.cursor_le fun a ha =>
    (Scan.bounds_of_mem_hits ha).2).ordered_surrendered

/-- The edits that are left in the end are applied. -/
theorem finish_edited {text : Text} {s : Progress}
    (hs : Edit.Ordered 0 text.length (s.edits ++ surrendered s.stack)) :
    (do let s ← finish s; return (⟨← edited text s.edits, s.register, s.equations⟩ : Resolved)) =
      conclude text s := by
  have hedited : edited text (s.edits ++ surrendered s.stack) =
      pure (Edit.splice text 0 text.length (s.edits ++ surrendered s.stack)) :=
    Noted.ext rfl (by rw [result_edited hs.fit, hs.inOrder_eq]; rfl)
  rw [finish_eq, bind_of_ok rfl]
  dsimp only
  rw [hedited]
  exact Noted.ext (List.append_nil _) rfl

/-- **The conversion of a document is the run of its events.** -/
theorem resolve_eq_run (settings : Settings) (register : TheoremRegister) (equations : Nat)
    (text : Text) :
    resolve settings register equations text =
      resolveUnder mayNest settings register equations text := by
  obtain ⟨s, hs, hordered, hrun⟩ := exists_scan_start settings register equations text
  rw [resolve, resolveUnder, ← hrun, bind_map_left]
  apply bind_congr_of_result
  intro s' hs'
  rw [hs] at hs'
  cases hs'
  exact finish_edited hordered

/-- What a run leaves in order. -/
theorem exists_run (settings : Settings) (register : TheoremRegister) (equations : Nat)
    (text : Text) :
    ∃ s, (run mayNest settings register equations text).result = .ok s ∧
      Edit.Ordered 0 text.length (s.edits ++ surrendered s.stack) := by
  obtain ⟨s, hs, hordered, hrun⟩ := exists_scan_start settings register equations text
  refine ⟨s.at 0, ?_, hordered⟩
  rw [← hrun, map_eq_pure_bind, bind_of_ok hs]
  rfl

/-- **Every document has a result.** -/
theorem exists_result_resolve (settings : Settings) (register : TheoremRegister)
    (equations : Nat) (text : Text) :
    ∃ r, (resolve settings register equations text).result = .ok r := by
  obtain ⟨s, hs, -⟩ := exists_run settings register equations text
  rw [resolve_eq_run, resolveUnder]
  exact exists_result_bind ⟨s, hs⟩ fun s => ⟨_, rfl⟩

/-- **The windows of frames hold their edits.**  Whatever marks have been taken, the next one
    that the scan looks at lies behind the edits of every open frame and behind those outside
    all frames. -/
theorem windows_fit (settings : Settings) (register : TheoremRegister) (equations : Nat)
    {text : Text} {taken : List (Hit Token)} {h : Hit Token}
    (htaken : taken ++ [h] <+: Scan.hits token text) :
    ∃ s, (taken.foldlM (step settings text) (.start register equations)).result = .ok s ∧
      (s.cursor ≤ h.start → Edit.Fit 0 h.start s.edits ∧
        ∀ f ∈ s.stack, Edit.Fit f.contentStart h.start f.edits) := by
  obtain ⟨s, hs, hplaced, -⟩ := exists_scan settings taken [] (.start register equations)
    ((List.prefix_append taken [h]).trans htaken) (.start _ _ _)
  refine ⟨s, hs, ?_⟩
  intro hcursor
  have hline := hplaced.inLine_start htaken hcursor
  exact ⟨hline.ordered_outside.fit, fun f hf => (hline.ordered_of_mem hf).fit⟩

/-! ### Events stand apart -/

/-- Events **stand apart**: each takes some characters of the text, and ends before the next
    begins. -/
structure Apart (size : Nat) (es : List (Hit Event)) : Prop where
  inside : ∀ e ∈ es, e.start < e.stop ∧ e.stop ≤ size
  pairwise : es.Pairwise fun a b => a.stop ≤ b.start

theorem apart_accepted (settings : Settings) {text : Text} (todo : List (Hit Token)) :
    ∀ (cursor : Nat) (register : TheoremRegister), todo.Sublist (Scan.hits token text) →
      Apart text.length (accepted settings text cursor register todo) ∧
        ∀ e ∈ accepted settings text cursor register todo,
          cursor ≤ e.start ∧ ∃ h ∈ todo, e.start = h.start := by
  induction todo with
  | nil => exact fun _ _ _ => ⟨⟨nofun, .nil⟩, nofun⟩
  | cons h todo ih =>
    intro cursor register hsub
    have hsub' := (List.sublist_cons_self h todo).trans hsub
    rw [accepted]
    cases he : event? settings text cursor register h with
    | none =>
      obtain ⟨hapart, hstarts⟩ := ih cursor register hsub'
      refine ⟨hapart, ?_⟩
      intro e' he'
      obtain ⟨hcursor, h', hmem, hstart⟩ := hstarts e' he'
      exact ⟨hcursor, h', List.mem_cons_of_mem h hmem, hstart⟩
    | some e =>
      obtain ⟨hcursor, hstart, hlt, hsize, hstop⟩ := event?_spec (hsub.subset List.mem_cons_self) he
      obtain ⟨hapart, hstarts⟩ := ih (cursorAfter settings text cursor register e)
        (registerAfter settings text register e) hsub'
      have hnext := (List.pairwise_cons.mp ((Scan.pairwise_hits token text).sublist hsub)).1
      -- what follows begins behind the mark of the event, and behind the cursor
      have hlater : ∀ e' ∈ accepted settings text (cursorAfter settings text cursor register e)
          (registerAfter settings text register e) todo,
          e.stop ≤ e'.start ∧ e.start < e'.start := by
        intro e' he'
        obtain ⟨hcursor', h', hmem, hstart'⟩ := hstarts e' he'
        have := hnext h' hmem
        rcases hstop with hstop | hstop <;> omega
      refine ⟨⟨?_, ?_⟩, ?_⟩
      · exact List.forall_mem_cons.mpr ⟨⟨hlt, hsize⟩, hapart.inside⟩
      · exact List.pairwise_cons.mpr ⟨fun e' he' => (hlater e' he').1, hapart.pairwise⟩
      · refine List.forall_mem_cons.mpr
          ⟨⟨by omega, h, List.mem_cons_self, hstart⟩, fun e' he' => ?_⟩
        obtain ⟨-, h', hmem, hstart'⟩ := hstarts e' he'
        have := (hlater e' he').2
        exact ⟨by omega, h', List.mem_cons_of_mem h hmem, hstart'⟩

/-- **The events of a document stand apart.** -/
theorem apart_events (settings : Settings) (register : TheoremRegister) (text : Text) :
    Apart text.length (events settings register text) :=
  (apart_accepted settings (Scan.hits token text) 0 register (List.Sublist.refl _)).1

/-! ### Reports -/

/-- A conversion reports environments without a converter, and nothing else. -/
theorem only_convert (settings : Settings) (register : TheoremRegister) (frame : Frame)
    (content : Text) (equations : Nat) :
    Only (· = .unknownEnvironment) (frame.convert settings register content equations) := by
  have hunknown : Only (· = .unknownEnvironment)
      (Converter.unknown.apply settings frame content equations) :=
    only_bind (only_report (by rfl) _ _) fun _ => only_pure _
  unfold Frame.convert
  split
  · rename_i converter _
    cases converter with
    | unknown => exact hunknown
    | equation => exact only_pure _
    | aligned => exact only_pure _
    | gather => exact only_pure _
    | multline => exact only_pure _
    | inner => exact only_pure _
    | container => exact only_pure _
  · split
    · exact only_pure _
    · exact hunknown

theorem noFailure_convert (settings : Settings) (register : TheoremRegister) (frame : Frame)
    (content : Text) (equations : Nat) :
    NoFailure (frame.convert settings register content equations) := by
  intro d hd
  rw [only_convert settings register frame content equations d hd]
  exact nofun

theorem noFailure_close (settings : Settings) (text : Text) (s : Progress) (name : Text)
    (start stop : Nat) : NoFailure (close settings text s name start stop) := by
  rcases innermost_cases (·.name) name s.stack with hnone | ⟨above, frame, outer, hstack, habove, hname⟩
  · rw [close_stray hnone]
    exact only_bind (only_report (by decide) _ _) fun _ => only_pure _
  · by_cases hne : above = []
    · subst hne
      rw [close_convert hstack hname]
      exact only_bind (noFailure_convert _ _ _ _ _) fun _ => only_pure _
    · rw [close_unwind hstack hne habove hname]
      exact only_bind (only_forM_report (by decide) _ _ _) fun _ => only_pure _

theorem noFailure_advance (allowed : Text → Text → Bool) (settings : Settings) (text : Text)
    (s : Progress) (e : Hit Event) : NoFailure (advance allowed settings text s e) := by
  unfold advance
  split
  · refine only_bind ?_ fun _ => only_pure _
    unfold reportNesting
    split
    · exact only_pure _
    · split
      · exact only_pure _
      · exact only_report (by decide) _ _
  · exact noFailure_close _ _ _ _ _ _
  · exact only_pure _
  · exact only_pure _

theorem noFailure_resolve (settings : Settings) (register : TheoremRegister) (equations : Nat)
    (text : Text) : NoFailure (resolve settings register equations text) := by
  rw [resolve_eq_run, resolveUnder]
  apply only_bind (only_foldlM (noFailure_advance _ _ _) _ _)
  intro s d hd
  obtain ⟨f, -, rfl⟩ := List.mem_map.mp hd
  exact nofun

end TexMark.Environment
