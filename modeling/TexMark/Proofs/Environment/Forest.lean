/-
  TexMark/Proofs/Environment/Forest.lean
  ======================================
  **Environments as trees.**  The scan works with a stack and with edits that are applied
  later.  A reader thinks of a tree instead: an environment is converted when everything
  inside it has been converted, and all other text is copied.

    * `Forest` — events as a forest, in which each environment holds those between its
      beginning and its end; it is `Balanced` if no beginning and no end stands alone;
    * `Forest.converted` — the conversion by recursion over the forest, with the counters
      threaded through it from left to right;
    * `foldlM_advance_events` — the run of the events of a balanced forest adds its edits;
    * `resolve_eq_converted` — a well nested document is converted as its forest is.
-/
import TexMark.Proofs.Environment.Placement

namespace TexMark.Environment

open Noted

/-! ### Forests -/

/-- The beginning or the end of an environment, as it stands in a text. -/
structure Marker where
  name : Text
  start : Nat
  stop : Nat
deriving DecidableEq, Repr

/-- The event of a beginning. -/
def Marker.opening (m : Marker) : Hit Event := ⟨m.start, m.stop, .opening m.name⟩

/-- The event of an end. -/
def Marker.closing (m : Marker) : Hit Event := ⟨m.start, m.stop, .closing m.name⟩

/-- Events as a **forest**: those that stand for themselves, and environments with what is
    inside them. -/
inductive Forest where
  | nil
  | leaf (e : Hit Event) (rest : Forest)
  | environment (opening closing : Marker) (inner rest : Forest)

/-- Does an event stand for the beginning or the end of an environment? -/
def Event.isMarker : Event → Bool
  | opening _ => true
  | closing _ => true
  | section_ => false
  | declaration _ => false

namespace Forest

/-- The events of a forest, in the order of the text. -/
def events : Forest → List (Hit Event)
  | nil => []
  | leaf e rest => e :: rest.events
  | environment opening closing inner rest =>
    opening.opening :: (inner.events ++ closing.closing :: rest.events)

/-- All environments end by their own name, and no beginning and no end stands alone. -/
def Balanced : Forest → Prop
  | nil => True
  | leaf e rest => ¬ e.value.isMarker ∧ rest.Balanced
  | environment opening closing inner rest =>
    closing.name = opening.name ∧ inner.Balanced ∧ rest.Balanced

end Forest

/-- Events that are **well nested** by name. -/
def WellNested (es : List (Hit Event)) : Prop :=
  ∃ forest : Forest, forest.Balanced ∧ forest.events = es

/-! ### Conversion by recursion -/

/-- What is counted along a text. -/
structure Counters where
  register : TheoremRegister
  equations : Nat

/-- The counters behind an event. -/
def Counters.after (c : Counters) (settings : Settings) (text : Text) (e : Hit Event) :
    Counters :=
  { c with register := registerAfter settings text c.register e }

namespace Forest

section

variable (allowed : Text → Text → Bool) (settings : Settings) (text : Text)

/-- **The conversion of a forest.**  Text between events is copied, and declarations leave
    nothing.  An environment becomes what its converter makes of its content, in which the
    environments are converted already.  Theorems are counted where they begin; the converter
    runs with the counters at the end. -/
def converted (outer? : Option Text) : Forest → (start stop : Nat) → Counters →
    Noted (Text × Counters)
  | nil, start, stop, c => pure (Text.slice text start stop, c)
  | leaf e rest, start, stop, c =>
    match e.value with
    | .declaration _ => do
      let (after, c') ← rest.converted outer? e.stop stop (c.after settings text e)
      return (Text.slice text start e.start ++ after, c')
    | _ => rest.converted outer? start stop (c.after settings text e)
  | environment opening closing inner rest, start, stop, c => do
    reportNesting allowed outer? opening.name opening.start
    let (frame, register) :=
      frameAt settings c.register text opening.name opening.start opening.stop
    let (content, c₁) ← inner.converted (some opening.name) frame.contentStart closing.start
      ⟨register, c.equations⟩
    let (shown, equations) ← frame.convert settings c₁.register content c₁.equations
    let (after, c₂) ← rest.converted outer? closing.stop stop ⟨c₁.register, equations⟩
    return (Text.slice text start opening.start ++ shown ++ after, c₂)

/-- The edits of an event that stands for itself. -/
def leafEdits (e : Hit Event) : List Edit :=
  match e.value with
  | .declaration _ => [⟨e.start, e.stop, []⟩]
  | _ => []

/-- The edits of a forest: one for each declaration and each environment that lies in no
    other. -/
def edits (outer? : Option Text) : Forest → Counters → Noted (List Edit × Counters)
  | nil, c => pure ([], c)
  | leaf e rest, c => do
    let (more, c') ← rest.edits outer? (c.after settings text e)
    return (leafEdits e ++ more, c')
  | environment opening closing inner rest, c => do
    reportNesting allowed outer? opening.name opening.start
    let (frame, register) :=
      frameAt settings c.register text opening.name opening.start opening.stop
    let (within, c₁) ← inner.edits (some opening.name) ⟨register, c.equations⟩
    let (shown, equations) ← frame.convert settings c₁.register
      (Edit.splice text frame.contentStart closing.start within) c₁.equations
    let (more, c₂) ← rest.edits outer? ⟨c₁.register, equations⟩
    return (⟨opening.start, closing.stop, shown⟩ :: more, c₂)

/-- The conversion of a forest applies its edits. -/
theorem converted_eq_edits (forest : Forest) (outer? : Option Text) (start stop : Nat)
    (c : Counters) :
    forest.converted allowed settings text outer? start stop c =
      (fun r => (Edit.splice text start stop r.1, r.2)) <$>
        forest.edits allowed settings text outer? c := by
  induction forest generalizing outer? start stop c with
  | nil => simp [converted, edits, Edit.splice]
  | leaf e rest ih =>
    obtain ⟨start', stop', value⟩ := e
    cases value with
    | declaration command => simp [converted, edits, leafEdits, ih, Edit.splice]
    | opening name => simp [converted, edits, leafEdits, ih]
    | closing name => simp [converted, edits, leafEdits, ih]
    | section_ => simp [converted, edits, leafEdits, ih]
  | environment opening closing inner rest ihInner ihRest =>
    simp [converted, edits, ihInner, ihRest, Edit.splice]

end

/-- A forest reports nestings that are not allowed and environments without a converter. -/
theorem only_edits (allowed : Text → Text → Bool) (settings : Settings) (text : Text)
    (outer? : Option Text) (forest : Forest) (c : Counters) :
    Only (fun kind => kind = .invalidNesting ∨ kind = .unknownEnvironment)
      (forest.edits allowed settings text outer? c) := by
  induction forest generalizing outer? c with
  | nil => exact only_pure _
  | leaf e rest ih => exact only_bind (ih _ _) fun _ => only_pure _
  | environment opening closing inner rest ihInner ihRest =>
    refine only_bind ?_ fun _ => only_bind (ihInner _ _) fun _ => only_bind ?_ fun _ =>
      only_bind (ihRest _ _) fun _ => only_pure _
    · unfold reportNesting
      split
      · exact only_pure _
      · split
        · exact only_pure _
        · exact only_report (.inl rfl) _ _
    · exact fun d hd => .inr (only_convert settings _ _ _ _ d hd)

end Forest

/-! ### The run of a forest -/

/-- The counters of a scan. -/
def Progress.counters (s : Progress) : Counters := ⟨s.register, s.equations⟩

/-- The name of the innermost frame. -/
def Progress.innermost? (s : Progress) : Option Text := s.stack.head?.map (·.name)

/-- The scan **behind** a forest, whose edits have been added. -/
def Progress.behind (s : Progress) (more : List Edit) (c : Counters) : Progress :=
  { s.add more with register := c.register, equations := c.equations }

/-- The scan with a frame for a beginning. -/
def Progress.opened (s : Progress) (settings : Settings) (text : Text) (m : Marker) : Progress :=
  { s with
    stack := (frameAt settings s.register text m.name m.start m.stop).1 :: s.stack
    register := (frameAt settings s.register text m.name m.start m.stop).2 }

namespace Progress

@[simp] theorem innermost?_opened (s : Progress) (settings : Settings) (text : Text)
    (m : Marker) : (s.opened settings text m).innermost? = some m.name := by
  simp [innermost?, opened]

variable (s : Progress) (edits more : List Edit) (c c' : Counters)

@[simp] theorem counters_behind : (s.behind edits c).counters = c := rfl

@[simp] theorem innermost?_behind : (s.behind edits c).innermost? = s.innermost? := by
  obtain ⟨stack, outside, cursor, register, equations⟩ := s
  cases stack <;> rfl

@[simp] theorem behind_nil : s.behind [] s.counters = s := by
  obtain ⟨stack, outside, cursor, register, equations⟩ := s
  cases stack <;> simp [behind, add, addEdits, counters]

theorem behind_behind : (s.behind edits c).behind more c' = s.behind (edits ++ more) c' := by
  obtain ⟨stack, outside, cursor, register, equations⟩ := s
  cases stack <;> simp [behind, add, addEdits]

end Progress

/-- The edits of a frame do not matter for its conversion. -/
theorem convert_with_edits (settings : Settings) (register : TheoremRegister) (frame : Frame)
    (edits : List Edit) (content : Text) (equations : Nat) :
    { frame with edits := edits }.convert settings register content equations =
      frame.convert settings register content equations := by
  unfold Frame.convert
  rfl

section

variable (allowed : Text → Text → Bool) (settings : Settings) (text : Text)

theorem advance_opening (s : Progress) (m : Marker) :
    advance allowed settings text s m.opening = (do
      reportNesting allowed s.innermost? m.name m.start
      return s.opened settings text m) := rfl

/-- An event that stands for itself adds its edits. -/
theorem advance_leaf (s : Progress) {e : Hit Event} (he : ¬ e.value.isMarker) :
    advance allowed settings text s e =
      pure (s.behind (Forest.leafEdits e) (s.counters.after settings text e)) := by
  obtain ⟨start, stop, value⟩ := e
  obtain ⟨stack, outside, cursor, register, equations⟩ := s
  cases value with
  | opening name => exact absurd rfl he
  | closing name => exact absurd rfl he
  | section_ =>
    cases stack <;> simp [advance, Progress.behind, Progress.add, addEdits, Forest.leafEdits,
      Progress.counters, Counters.after]
  | declaration command => rfl

/-- **An environment on the stack.**  Its beginning, the edits of what is inside it, and its end
    come down to the one edit of the environment. -/
theorem advance_environment (s : Progress) {opening closing : Marker}
    (hname : closing.name = opening.name) (inner : Forest) :
    (do
      let s₁ ← advance allowed settings text s opening.opening
      let (within, c) ← inner.edits allowed settings text (some opening.name) s₁.counters
      advance allowed settings text (s₁.behind within c) closing.closing) =
    (do
      let (edits, c) ← (Forest.environment opening closing inner .nil).edits allowed settings text
        s.innermost? s.counters
      return s.behind edits c) := by
  simp only [Forest.edits, advance_opening, bind_assoc, pure_bind]
  refine bind_congr fun _ => bind_congr ?_
  intro r
  have hstack : ((s.opened settings text opening).behind r.1 r.2).stack =
      { (frameAt settings s.register text opening.name opening.start opening.stop).1 with
        edits := r.1 } :: s.stack := by
    simp [Progress.opened, Progress.behind, Progress.add, addEdits]
  refine (close_convert hstack (by simp [hname])).trans ?_
  dsimp only
  rw [convert_with_edits, start_frameAt]
  rfl

/-- **The run of a balanced forest** adds its edits, whatever frames are open around it. -/
theorem foldlM_advance_events {forest : Forest} (hbalanced : forest.Balanced) (s : Progress) :
    forest.events.foldlM (advance allowed settings text) s = do
      let (edits, c) ← forest.edits allowed settings text s.innermost? s.counters
      return s.behind edits c := by
  induction forest generalizing s with
  | nil => simp [Forest.events, Forest.edits]
  | leaf e rest ih =>
    rw [Forest.events, List.foldlM_cons, advance_leaf allowed settings text s hbalanced.1,
      pure_bind, ih hbalanced.2]
    simp [Forest.edits, Progress.behind_behind]
  | environment opening closing inner rest ihInner ihRest =>
    obtain ⟨hname, hinner, hrest⟩ := hbalanced
    -- the environment by itself
    have henvironment : (opening.opening :: (inner.events ++ [closing.closing])).foldlM
        (advance allowed settings text) s = do
          let (edits, c) ← (Forest.environment opening closing inner .nil).edits allowed settings
            text s.innermost? s.counters
          return s.behind edits c := by
      rw [← advance_environment allowed settings text s hname inner, List.foldlM_cons,
        advance_opening, bind_assoc, bind_assoc]
      apply bind_congr
      intro _
      rw [pure_bind, pure_bind, List.foldlM_append, ihInner hinner, Progress.innermost?_opened,
        bind_assoc]
      simp
    have hevents : (Forest.environment opening closing inner rest).events =
        opening.opening :: (inner.events ++ [closing.closing]) ++ rest.events := by
      simp [Forest.events]
    rw [hevents, List.foldlM_append, henvironment]
    simp only [Forest.edits, bind_assoc, pure_bind, ihRest hrest, Progress.innermost?_behind,
      Progress.counters_behind, Progress.behind_behind, List.singleton_append]

end

/-! ### Well nested documents -/

/-- **A well nested document is converted as its forest is.**  Text, reports, register and
    number of equations are those of the recursion, whatever the settings and the counters at
    the start. -/
theorem resolve_eq_converted (settings : Settings) (register : TheoremRegister)
    (equations : Nat) (text : Text) {forest : Forest} (hbalanced : forest.Balanced)
    (hevents : forest.events = events settings register text) :
    resolve settings register equations text = (do
      let (shown, c) ← forest.converted mayNest settings text none 0 text.length
        ⟨register, equations⟩
      return ⟨shown, c.register, c.equations⟩) := by
  rw [resolve_eq_run, resolveUnder, run, ← hevents,
    foldlM_advance_events mayNest settings text hbalanced, Forest.converted_eq_edits,
    bind_map_left, bind_assoc]
  apply bind_congr
  intro r
  rw [pure_bind]
  -- no frame is open in the end, so that nothing is reported and nothing is given up
  have hconclude : conclude text ((Progress.start register equations).behind r.1 r.2) =
      ⟨[], .ok ⟨Edit.splice text 0 text.length (r.1 ++ []), r.2.register, r.2.equations⟩⟩ := rfl
  rw [hconclude, List.append_nil]
  rfl

/-- A numbered theorem with a formula in it, behind its declaration. -/
theorem resolve_eq_converted_theorem :
    let settings : Settings := ⟨defaultConverters, [], true, true⟩
    let text : Text :=
      "\\newtheorem{thm}{Theorem}\\begin{thm}[A]x\\begin{equation}y\\end{equation}\\end{thm}"
    let forest : Forest :=
      .leaf ⟨0, 25, .declaration ⟨false, "thm", none, "Theorem", none⟩⟩
        (.environment ⟨"thm", 25, 36⟩ ⟨"thm", 71, 80⟩
          (.environment ⟨"equation", 40, 56⟩ ⟨"equation", 57, 71⟩ .nil .nil) .nil)
    forest.Balanced ∧ forest.events = events settings .empty text ∧
    resolve settings .empty 0 text = (do
      let (shown, c) ← forest.converted mayNest settings text none 0 text.length ⟨.empty, 0⟩
      return ⟨shown, c.register, c.equations⟩) := by
  intro settings text forest
  have hbalanced : forest.Balanced := by
    simp [forest, Forest.Balanced, Event.isMarker]
  have hevents : forest.events = events settings .empty text := by
    rfl
  exact ⟨hbalanced, hevents, resolve_eq_converted settings .empty 0 text hbalanced hevents⟩

end TexMark.Environment
