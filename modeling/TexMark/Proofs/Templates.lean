/-
  TexMark/Proofs/Templates.lean
  =============================
  **Templates are filled once.**  A template is read into its parts before any value is put in:
  characters, doubled dollar signs and gaps.  Each part is then shown on its own (`fill_eq_parts`),
  so that what a value holds is never read as a gap.

    * `written_parts` — the parts are the whole template, as it is written;
    * `written_of_mem_parts` — a gap is its name, in braces or bare.
-/
import TexMark.Text.Placeholder

namespace TexMark.Template

/-- A **part** of a template.  A gap has a name, and it is written behind a dollar sign. -/
inductive Part
  | literal (c : Char)
  | dollar
  | gap (name written : Text)
deriving DecidableEq

namespace Part

def written : Part → Text
  | literal c => [c]
  | dollar => "$$"
  | gap _ w => '$' :: w

/-- What a part becomes: a gap without a value stays as it is written. -/
def filled (value? : Text → Option Text) : Part → Text
  | literal c => [c]
  | dollar => "$"
  | gap name w => (value? name).getD ('$' :: w)

end Part

/-- The parts of a template behind its first `skip` characters. -/
def partsFrom (skip : Nat) : Text → List Part
  | [] => []
  | c :: rest =>
    match skip with
    | skip + 1 => partsFrom skip rest
    | 0 =>
      if c != '$' then .literal c :: partsFrom 0 rest
      else if rest.head? == some '$' then .dollar :: partsFrom 1 rest
      else match gap? rest with
        | none => .literal '$' :: partsFrom 0 rest
        | some g => .gap g.name (rest.take g.length) :: partsFrom g.length rest

def parts (template : Text) : List Part := partsFrom 0 template

theorem fillFrom_eq (value? : Text → Option Text) (skip : Nat) (t : Text) :
    fillFrom value? skip t = (partsFrom skip t).flatMap (Part.filled value?) := by
  induction t generalizing skip with
  | nil => rfl
  | cons c rest ih =>
    cases skip with
    | succ skip => exact ih skip
    | zero =>
      simp only [fillFrom, partsFrom, ih]
      split
      · rfl
      · split
        · rfl
        · cases gap? rest with
          | none => rfl
          | some g =>
            rw [List.flatMap_cons, Part.filled]
            dsimp only
            cases value? g.name <;> rfl

/-- **A template is filled part by part**, whatever the values hold. -/
theorem fill_eq_parts (template : Text) (values : List (Text × Text)) :
    fill template values = (parts template).flatMap
      (Part.filled fun name => (values.find? fun e => e.1 == name).map (·.2)) :=
  fillFrom_eq _ 0 template

example : fill "($label)" [("label", "$number"), ("number", "1")] = "($number)" := rfl

theorem written_partsFrom (skip : Nat) (t : Text) :
    (partsFrom skip t).flatMap Part.written = t.drop skip := by
  induction t generalizing skip with
  | nil => exact List.drop_nil.symm
  | cons c rest ih =>
    cases skip with
    | succ skip => exact ih skip
    | zero =>
      rw [partsFrom]
      split
      · exact congrArg (c :: ·) (ih 0)
      · rename_i hc
        obtain rfl : c = '$' := by simpa using hc
        split
        · rename_i hdollar
          obtain ⟨rest, rfl⟩ := List.head?_eq_some_iff.mp (by simpa using hdollar)
          rw [List.flatMap_cons, ih]
          rfl
        · cases gap? rest with
          | none => exact congrArg ('$' :: ·) (ih 0)
          | some g =>
            rw [List.flatMap_cons, ih, Part.written, List.cons_append, List.take_append_drop]
            rfl

theorem written_parts (template : Text) : (parts template).flatMap Part.written = template :=
  written_partsFrom 0 template

theorem take_nameAtHead (t : Text) : t.take (nameAtHead t).length = nameAtHead t := by
  cases t with
  | nil => rfl
  | cons c t =>
    rw [nameAtHead]
    split
    · exact congrArg (c :: ·) (List.prefix_iff_eq_take.mp (List.takeWhile_prefix _)).symm
    · rfl

/-- A gap is written as its name, in braces or bare. -/
theorem take_of_gap? {t : Text} {g : Gap} (h : gap? t = some g) :
    g.name ≠ [] ∧ (t.take g.length = g.name ∨ t.take g.length = Text.braced g.name) := by
  unfold gap? at h
  split at h
  · rename_i rest
    dsimp only at h
    split at h
    · cases h
    · rename_i hname
      split at h
      · rename_i hclosed
        cases h
        obtain ⟨after, hafter⟩ := List.head?_eq_some_iff.mp (beq_iff_eq.mp hclosed)
        refine ⟨by simpa using hname, .inr ?_⟩
        dsimp only
        rw [List.take_succ_cons, Text.braced, List.take_add, take_nameAtHead, hafter]
        rfl
      · cases h
  · dsimp only at h
    split at h
    · cases h
    · rename_i hname
      cases h
      exact ⟨by simpa using hname, .inl (take_nameAtHead t)⟩

theorem written_of_mem_partsFrom {skip : Nat} {t name w : Text}
    (h : .gap name w ∈ partsFrom skip t) : name ≠ [] ∧ (w = name ∨ w = Text.braced name) := by
  induction t generalizing skip with
  | nil => cases h
  | cons c rest ih =>
    cases skip with
    | succ skip => exact ih h
    | zero =>
      rw [partsFrom] at h
      split at h
      · exact ih ((List.mem_cons.mp h).resolve_left nofun)
      · split at h
        · exact ih ((List.mem_cons.mp h).resolve_left nofun)
        · cases hgap : gap? rest with
          | none =>
            rw [hgap] at h
            exact ih ((List.mem_cons.mp h).resolve_left nofun)
          | some g =>
            rw [hgap] at h
            rcases List.mem_cons.mp h with heq | h
            · cases heq
              exact take_of_gap? hgap
            · exact ih h

theorem written_of_mem_parts {template name w : Text} (h : .gap name w ∈ parts template) :
    name ≠ [] ∧ (w = name ∨ w = Text.braced name) := written_of_mem_partsFrom h

end TexMark.Template
