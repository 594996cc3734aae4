/-
  TexMark/Proofs/Environment/Outcome.lean
  =======================================
  **The outcome of any forest.**  A forest always has a result, and the result depends neither
  on the rule of nesting nor on what the forest stands in; these two decide only what is
  reported.  So the edits and counters that it leaves are a plain function of the forest
  (`Forest.outcome`), which goes through a forest from left to right (`outcome_append`).
-/
import TexMark.Proofs.Environment.Forest

namespace TexMark.Environment

open Noted

/-- What a frame is turned into, and the equations counted with it. -/
def Frame.converted (settings : Settings) (register : TheoremRegister) (frame : Frame)
    (content : Text) (equations : Nat) : Text × Nat :=
  match (frame.convert settings register content equations).result with
  | .ok r => r
  | .error _ => ([], equations)

theorem result_convert (settings : Settings) (register : TheoremRegister) (frame : Frame)
    (content : Text) (equations : Nat) :
    (frame.convert settings register content equations).result =
      .ok (frame.converted settings register content equations) := by
  obtain ⟨r, hr⟩ := exists_result_convert settings register frame content equations
  rw [Frame.converted, hr]

namespace Forest

/-! ### Forests one behind the other -/

/-- One forest behind another. -/
def append : Forest → Forest → Forest
  | nil, more => more
  | leaf e rest, more => leaf e (rest.append more)
  | environment opening closing inner rest, more =>
    environment opening closing inner (rest.append more)

theorem append_assoc (a b c : Forest) : (a.append b).append c = a.append (b.append c) := by
  induction a with
  | nil => rfl
  | leaf e rest ih => simp [append, ih]
  | environment opening closing inner rest _ ih => simp [append, ih]

@[simp] theorem append_nil (a : Forest) : a.append nil = a := by
  induction a with
  | nil => rfl
  | leaf e rest ih => simp [append, ih]
  | environment opening closing inner rest _ ih => simp [append, ih]

@[simp] theorem events_append (a b : Forest) : (a.append b).events = a.events ++ b.events := by
  induction a with
  | nil => rfl
  | leaf e rest ih => simp [append, events, ih]
  | environment opening closing inner rest _ ih => simp [append, events, ih]

theorem balanced_append {a b : Forest} : (a.append b).Balanced ↔ a.Balanced ∧ b.Balanced := by
  induction a with
  | nil => simp [append, Balanced]
  | leaf e rest ih => simp [append, Balanced, ih, and_assoc]
  | environment opening closing inner rest _ ih => simp [append, Balanced, ih, and_assoc]

/-- The beginnings and ends of the environments of a forest, in the order of the ends. -/
def environments : Forest → List (Marker × Marker)
  | nil => []
  | leaf _ rest => rest.environments
  | environment opening closing inner rest =>
    inner.environments ++ (opening, closing) :: rest.environments

@[simp] theorem environments_append (a b : Forest) :
    (a.append b).environments = a.environments ++ b.environments := by
  induction a with
  | nil => rfl
  | leaf e rest ih => simp [append, environments, ih]
  | environment opening closing inner rest _ ih => simp [append, environments, ih]

/-! ### Outcomes -/

section

variable (settings : Settings) (text : Text)

/-- A forest has a result, whatever the rule of nesting and wherever it stands. -/
theorem exists_outcome (forest : Forest) (c : Counters) :
    ∃ r, ∀ allowed outer?, (forest.edits allowed settings text outer? c).result = .ok r := by
  induction forest generalizing c with
  | nil => exact ⟨([], c), fun _ _ => rfl⟩
  | leaf e rest ih =>
    obtain ⟨r, hr⟩ := ih (c.after settings text e)
    refine ⟨(leafEdits e ++ r.1, r.2), ?_⟩
    intro allowed outer?
    rw [edits, bind_of_ok (hr allowed outer?)]
    rfl
  | environment opening closing inner rest ihInner ihRest =>
    rcases hframe : frameAt settings c.register text opening.name opening.start opening.stop
      with ⟨frame, register⟩
    obtain ⟨⟨within, c₁⟩, hinner⟩ := ihInner ⟨register, c.equations⟩
    obtain ⟨⟨shown, equations⟩, hshown⟩ := exists_result_convert settings c₁.register frame
      (Edit.splice text frame.contentStart closing.start within) c₁.equations
    obtain ⟨⟨more, c₂⟩, hrest⟩ := ihRest ⟨c₁.register, equations⟩
    refine ⟨(⟨opening.start, closing.stop, shown⟩ :: more, c₂), ?_⟩
    intro allowed outer?
    rw [edits, bind_of_ok (result_reportNesting _ _ _ _), hframe]
    dsimp only
    rw [bind_of_ok (hinner allowed _)]
    dsimp only
    rw [bind_of_ok hshown]
    dsimp only
    rw [bind_of_ok (hrest allowed outer?)]
    rfl

/-- **The outcome of a forest:** its edits, and the counters behind it. -/
def outcome (forest : Forest) (c : Counters) : List Edit × Counters :=
  match (forest.edits mayNest settings text none c).result with
  | .ok r => r
  | .error _ => ([], c)

theorem result_edits (allowed : Text → Text → Bool) (outer? : Option Text) (forest : Forest)
    (c : Counters) : (forest.edits allowed settings text outer? c).result =
      .ok (forest.outcome settings text c) := by
  obtain ⟨r, hr⟩ := exists_outcome settings text forest c
  rw [outcome, hr, hr]

@[simp] theorem outcome_nil (c : Counters) : nil.outcome settings text c = ([], c) := rfl

theorem outcome_leaf (e : Hit Event) (rest : Forest) (c : Counters) :
    (leaf e rest).outcome settings text c =
      (leafEdits e ++ (rest.outcome settings text (c.after settings text e)).1,
        (rest.outcome settings text (c.after settings text e)).2) := by
  have h := result_edits settings text mayNest none (leaf e rest) c
  rw [edits, bind_of_ok (result_edits settings text mayNest none rest _)] at h
  exact (Except.ok.inj h).symm

/-- The edit of an environment: its content is spliced, and converted with the counters at its
    end. -/
def environmentEdit (opening closing : Marker) (inner : Forest) (c : Counters) :
    Edit × Counters :=
  let (frame, register) :=
    frameAt settings c.register text opening.name opening.start opening.stop
  let (within, c₁) := inner.outcome settings text ⟨register, c.equations⟩
  let (shown, equations) := frame.converted settings c₁.register
    (Edit.splice text frame.contentStart closing.start within) c₁.equations
  (⟨opening.start, closing.stop, shown⟩, ⟨c₁.register, equations⟩)

theorem outcome_environment (opening closing : Marker) (inner rest : Forest) (c : Counters) :
    let r := environmentEdit settings text opening closing inner c
    (environment opening closing inner rest).outcome settings text c =
      (r.1 :: (rest.outcome settings text r.2).1, (rest.outcome settings text r.2).2) := by
  have h := result_edits settings text mayNest none (environment opening closing inner rest) c
  rw [edits, bind_of_ok (result_reportNesting _ _ _ _)] at h
  dsimp only at h
  rw [bind_of_ok (result_edits settings text mayNest _ inner _)] at h
  dsimp only at h
  rw [bind_of_ok (result_convert _ _ _ _ _)] at h
  dsimp only at h
  rw [bind_of_ok (result_edits settings text mayNest none rest _)] at h
  exact (Except.ok.inj h).symm

theorem outcome_append (a b : Forest) (c : Counters) :
    (a.append b).outcome settings text c =
      ((a.outcome settings text c).1 ++ (b.outcome settings text (a.outcome settings text c).2).1,
        (b.outcome settings text (a.outcome settings text c).2).2) := by
  induction a generalizing c with
  | nil => rfl
  | leaf e rest ih => simp [append, outcome_leaf, ih]
  | environment opening closing inner rest _ ih => simp [append, outcome_environment, ih]

end

end Forest

end TexMark.Environment
