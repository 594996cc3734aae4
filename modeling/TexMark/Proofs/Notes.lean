/-
  TexMark/Proofs/Notes.lean
  =========================
  **Results with their reports.** How the two parts of a `Noted` value behave along a pass:

    * `exists_result_bind` — a sequence has a result when both parts have one;
    * `exists_foldlM` — what every step of a fold keeps holds at its end; the invariant may
      speak of the items taken so far and of the reports made on the way;
    * `Agree` — two runs report the same, and both fail with the same fault or come to related
      values; a sequence and a fold agree when their steps do;
    * `Only` — the reports are of some kinds only.  Those of a pass are never of the kind
      `NoFailure` leaves out, for the failure of a phase is for the conversion to report.
-/
import TexMark.Diagnostic

namespace TexMark.Noted

variable {α β : Type}

@[simp] theorem result_pure (a : α) : (pure a : Noted α).result = .ok a := rfl

@[simp] theorem notes_pure (a : α) : (pure a : Noted α).notes = [] := rfl

@[simp] theorem result_report (kind : DiagnosticKind) (message : Text) (position : Nat) :
    (report kind message position).result = .ok () := rfl

@[simp] theorem notes_report (kind : DiagnosticKind) (message : Text) (position : Nat) :
    (report kind message position).notes = [⟨kind, message, position⟩] := rfl

theorem ext {x y : Noted α} (hnotes : x.notes = y.notes) (hresult : x.result = y.result) :
    x = y := by
  cases x
  cases y
  simp_all

/-- Two continuations that agree on the result, if there is one, are the same. -/
theorem bind_congr_of_result {x : Noted α} {f g : α → Noted β}
    (h : ∀ a, x.result = .ok a → f a = g a) : x >>= f = x >>= g := by
  cases hx : x.result with
  | error fault => rw [bind_of_error hx, bind_of_error hx]
  | ok a => rw [bind_of_ok hx, bind_of_ok hx, h a hx]

theorem exists_result_bind {x : Noted α} {f : α → Noted β} (hx : ∃ a, x.result = .ok a)
    (hf : ∀ a, ∃ b, (f a).result = .ok b) : ∃ b, (x >>= f).result = .ok b := by
  obtain ⟨a, ha⟩ := hx
  obtain ⟨b, hb⟩ := hf a
  exact ⟨b, by rw [bind_of_ok ha]; exact hb⟩

/-- A sequence that has a result has one in both parts. -/
theorem of_result_bind {x : Noted α} {f : α → Noted β} {b : β}
    (h : (x >>= f).result = .ok b) : ∃ a, x.result = .ok a ∧ (f a).result = .ok b := by
  cases hx : x.result with
  | error fault =>
    rw [bind_of_error hx] at h
    cases h
  | ok a =>
    rw [bind_of_ok hx] at h
    exact ⟨a, rfl, h⟩

/-- What is computed from a result adds no reports. -/
theorem bind_pure_of_eq {x : Noted α} {notes : List Diagnostic} {a : α} (h : x = ⟨notes, .ok a⟩)
    (f : α → β) : (x >>= fun a => pure (f a)) = ⟨notes, .ok (f a)⟩ := by
  rw [h, bind_of_ok rfl]
  exact Noted.ext (List.append_nil notes) rfl

/-! ### Folds -/

/-- **What a step keeps, a fold keeps.**  The invariant speaks of the items taken so far,
    of the reports made while they were taken, and of the value reached. -/
theorem exists_foldlM {f : α → β → Noted α} (P : List β → List Diagnostic → α → Prop)
    {a : α} (items : List β) (hstart : P [] [] a)
    (hstep : ∀ taken notes a b, (taken ++ [b]) <+: items → P taken notes a →
      ∃ a', (f a b).result = .ok a' ∧ P (taken ++ [b]) (notes ++ (f a b).notes) a') :
    ∃ a', (items.foldlM f a).result = .ok a' ∧ P items (items.foldlM f a).notes a' := by
  -- the items still to come, behind those that have been taken
  suffices h : ∀ (todo taken : List β) (notes : List Diagnostic) (a : α),
      taken ++ todo = items → P taken notes a →
      ∃ a', (todo.foldlM f a).result = .ok a' ∧
        P items (notes ++ (todo.foldlM f a).notes) a' from
    h items [] [] a rfl hstart
  intro todo
  induction todo with
  | nil =>
    intro taken notes a htaken hP
    refine ⟨a, rfl, ?_⟩
    rw [List.append_nil] at htaken
    simpa [htaken] using hP
  | cons b todo ih =>
    intro taken notes a htaken hP
    have hitems : taken ++ [b] ++ todo = items := by simpa using htaken
    obtain ⟨a', ha', hP'⟩ := hstep taken notes a b ⟨todo, hitems⟩ hP
    obtain ⟨final, hfinal, hPfinal⟩ := ih (taken ++ [b]) _ a' hitems hP'
    refine ⟨final, ?_, ?_⟩
    · rw [List.foldlM_cons, bind_of_ok ha']
      exact hfinal
    · rw [List.foldlM_cons, bind_of_ok ha', ← List.append_assoc]
      exact hPfinal

/-- Items that a step passes over need not be taken. -/
theorem foldlM_filter {f : α → β → Noted α} {p : β → Bool}
    (hskip : ∀ a b, p b = false → f a b = pure a) (items : List β) (a : α) :
    items.foldlM f a = (items.filter p).foldlM f a := by
  induction items generalizing a with
  | nil => rfl
  | cons b items ih =>
    rw [List.foldlM_cons]
    cases hb : p b with
    | false =>
      rw [hskip a b hb, pure_bind, ih, List.filter_cons_of_neg (by simp [hb])]
    | true =>
      rw [List.filter_cons_of_pos hb, List.foldlM_cons]
      exact congrArg _ (funext ih)

theorem exists_result_mapM {f : α → Noted β} (hf : ∀ a, ∃ b, (f a).result = .ok b)
    (items : List α) : ∃ bs, (items.mapM f).result = .ok bs := by
  induction items with
  | nil => exact ⟨[], rfl⟩
  | cons a items ih =>
    rw [List.mapM_cons]
    exact exists_result_bind (hf a) fun b => exists_result_bind ih fun bs => ⟨b :: bs, rfl⟩

/-- Reports that are made one after the other. -/
theorem forM_report (kind : DiagnosticKind) (message : α → Text) (position : α → Nat)
    (items : List α) : (items.forM fun a => report kind (message a) (position a)) =
      ⟨items.map fun a => ⟨kind, message a, position a⟩, .ok ()⟩ := by
  induction items with
  | nil => rfl
  | cons a items ih =>
    rw [List.forM_eq_forM, List.forM_cons, ← List.forM_eq_forM, ih,
      bind_of_ok (result_report _ _ _)]
    rfl

/-! ### Two runs -/

/-- Two runs **agree**: they report the same, and either both fail, with the same fault, or they
    come to related values. -/
inductive Agree {γ : Type} (R : α → γ → Prop) : Noted α → Noted γ → Prop
  | failed (notes : List Diagnostic) (fault : Fault) :
      Agree R ⟨notes, .error fault⟩ ⟨notes, .error fault⟩
  | succeeded (notes : List Diagnostic) {a : α} {c : γ} (h : R a c) :
      Agree R ⟨notes, .ok a⟩ ⟨notes, .ok c⟩

theorem Agree.of_eq {R : α → α → Prop} (hR : ∀ a, R a a) (x : Noted α) : Agree R x x := by
  obtain ⟨notes, result⟩ := x
  cases result with
  | error fault => exact .failed notes fault
  | ok a => exact .succeeded notes (hR a)

theorem Agree.mono {γ : Type} {R S : α → γ → Prop} {x : Noted α} {y : Noted γ} (h : Agree R x y)
    (hRS : ∀ a c, R a c → S a c) : Agree S x y := by
  cases h with
  | failed notes fault => exact .failed notes fault
  | succeeded notes h => exact .succeeded notes (hRS _ _ h)

theorem Agree.bind {γ δ : Type} {R : α → γ → Prop} {S : β → δ → Prop} {x : Noted α} {y : Noted γ}
    {f : α → Noted β} {g : γ → Noted δ} (h : Agree R x y)
    (hfg : ∀ a c, x.result = .ok a → y.result = .ok c → R a c → Agree S (f a) (g c)) :
    Agree S (x >>= f) (y >>= g) := by
  cases h with
  | failed notes fault => exact .failed notes fault
  | @succeeded notes a c h =>
    have hrest := hfg a c rfl rfl h
    rw [bind_of_ok rfl, bind_of_ok rfl]
    generalize f a = p at hrest ⊢
    generalize g c = q at hrest ⊢
    cases hrest with
    | failed notes' fault => exact .failed _ fault
    | succeeded notes' h => exact .succeeded _ h

/-- **Where the steps agree**, the folds do. -/
theorem Agree.foldlM {γ : Type} {R : α → γ → Prop} {f : α → β → Noted α} {g : γ → β → Noted γ}
    {items : List β} (hstep : ∀ b ∈ items, ∀ a c, R a c → Agree R (f a b) (g c b)) {a : α} {c : γ}
    (h : R a c) : Agree R (items.foldlM f a) (items.foldlM g c) := by
  induction items generalizing a c with
  | nil => exact .succeeded [] h
  | cons b items ih =>
    obtain ⟨hfirst, hrest⟩ := List.forall_mem_cons.mp hstep
    rw [List.foldlM_cons, List.foldlM_cons]
    exact (hfirst a c h).bind fun _ _ _ _ h => ih hrest h

/-! ### Kinds of reports -/

/-- All reports are of some kinds. -/
def Only (kinds : DiagnosticKind → Prop) (x : Noted α) : Prop := ∀ d ∈ x.notes, kinds d.kind

/-- No failure of a phase is among the reports. -/
abbrev NoFailure (x : Noted α) : Prop := Only (· ≠ .phaseFailure) x

section

variable {kinds : DiagnosticKind → Prop}

theorem only_pure (a : α) : Only kinds (pure a : Noted α) := by
  intro d hd
  simp at hd

theorem only_fail (fault : Fault) : Only kinds (fail fault : Noted α) := by
  intro d hd
  simp [fail] at hd

theorem only_report {kind : DiagnosticKind} (hkind : kinds kind) (message : Text)
    (position : Nat) : Only kinds (report kind message position) := by
  intro d hd
  rw [notes_report, List.mem_singleton] at hd
  rw [hd]
  exact hkind

theorem only_forM_report {kind : DiagnosticKind} (hkind : kinds kind) (message : α → Text)
    (position : α → Nat) (items : List α) :
    Only kinds (items.forM fun a => report kind (message a) (position a)) := by
  rw [forM_report]
  intro d hd
  obtain ⟨a, -, rfl⟩ := List.mem_map.mp hd
  exact hkind

theorem only_edited (text : Text) (edits : List Edit) : Only kinds (edited text edits) := by
  intro d hd
  simp [edited, editedWithin] at hd

theorem only_bind {x : Noted α} {f : α → Noted β} (hx : Only kinds x)
    (hf : ∀ a, Only kinds (f a)) : Only kinds (x >>= f) := by
  cases h : x.result with
  | error fault => rwa [bind_of_error h]
  | ok a =>
    rw [bind_of_ok h]
    intro d hd
    rcases List.mem_append.mp hd with hd | hd
    · exact hx d hd
    · exact hf a d hd

theorem only_foldlM {f : α → β → Noted α} (hf : ∀ a b, Only kinds (f a b)) (a : α)
    (items : List β) : Only kinds (items.foldlM f a) := by
  induction items generalizing a with
  | nil => exact only_pure a
  | cons b items ih =>
    rw [List.foldlM_cons]
    exact only_bind (hf a b) ih

theorem only_mapM {f : α → Noted β} (hf : ∀ a, Only kinds (f a)) (items : List α) :
    Only kinds (items.mapM f) := by
  induction items with
  | nil => exact only_pure []
  | cons a items ih =>
    rw [List.mapM_cons]
    exact only_bind (hf a) fun b => only_bind ih fun bs => only_pure _

end

end TexMark.Noted
