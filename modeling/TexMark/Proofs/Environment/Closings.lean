/-
  TexMark/Proofs/Environment/Closings.lean
  ========================================
  **Environments at their ends.**  When an environment is converted, its frame has its content, in
  which the environments are converted already, and the counters have been threaded up to its end.
  `Forest.closings` lists these moments in the order of the ends: one for each environment of a
  forest (`places_closings`).  What a forest counts is what its closings count (`numbers_closings`).
-/
import TexMark.Proofs.Environment.Outcome
import TexMark.Proofs.Environment.Tags

namespace TexMark.Environment

open Noted

/-- A frame at its **end**. -/
structure Closing where
  frame : Frame
  content : Text
  /-- The counters in front of the conversion. -/
  counters : Counters

namespace Closing

variable (settings : Settings)

/-- What an environment is turned into, and the equations counted with it. -/
def converted (v : Closing) : Text × Nat :=
  v.frame.converted settings v.counters.register v.content v.counters.equations

/-- The counters behind an end. -/
def after (v : Closing) : Counters := ⟨v.counters.register, (v.converted settings).2⟩

/-- The formula that is shown with a number. -/
def tagged? (v : Closing) : Option Text := Environment.tagged? settings v.frame v.content

/-- The number that is shown. -/
def number? (v : Closing) : Option Nat :=
  (v.tagged? settings).map fun _ => v.counters.equations + 1

variable {settings}

/-- An end counts one equation if it shows a number, and none otherwise. -/
theorem equations_converted (v : Closing) :
    (v.converted settings).2 = v.counters.equations + (v.number? settings).toList.length := by
  rw [number?, converted, Frame.converted]
  cases htagged : v.tagged? settings with
  | some body =>
    rw [convert_of_tagged htagged]
    rfl
  | none =>
    rw [convert_of_untagged htagged]
    rfl

/-- The numbers that some closings show. -/
def numbers (settings : Settings) (vs : List Closing) : List Nat := vs.filterMap (number? settings)

theorem numbers_append_cons (settings : Settings) (vs ws : List Closing) (v : Closing) :
    numbers settings (vs ++ v :: ws) =
      numbers settings vs ++ (v.number? settings).toList ++ numbers settings ws := by
  rw [numbers, List.filterMap_append, List.filterMap_cons]
  cases v.number? settings <;> simp [numbers]

end Closing

/-! ### Numbers in turn -/

/-- Numbers that **count on** from the one before the first. -/
def CountOn (n : Nat) (ns : List Nat) : Prop := ns = List.range' (n + 1) ns.length

theorem CountOn.append {n : Nat} {ns ms : List Nat} (h : CountOn n ns)
    (h' : CountOn (n + ns.length) ms) : CountOn n (ns ++ ms) := by
  unfold CountOn at *
  rw [List.length_append, ← List.range'_append_1, ← h]
  refine congrArg (ns ++ ·) (h'.trans ?_)
  rw [Nat.add_right_comm]

namespace Forest

section

variable (settings : Settings) (text : Text)

/-- The closing of an environment: its frame, its spliced content, and the counters behind that. -/
def closingOf (opening closing : Marker) (inner : Forest) (c : Counters) : Closing :=
  let (frame, register) :=
    frameAt settings c.register text opening.name opening.start opening.stop
  let (within, c₁) := inner.outcome settings text ⟨register, c.equations⟩
  ⟨frame, Edit.splice text frame.contentStart closing.start within, c₁⟩

/-- The counters behind the beginning of an environment. -/
def countersInside (opening : Marker) (c : Counters) : Counters :=
  ⟨(frameAt settings c.register text opening.name opening.start opening.stop).2, c.equations⟩

theorem environmentEdit_eq (opening closing : Marker) (inner : Forest) (c : Counters) :
    environmentEdit settings text opening closing inner c =
      let v := closingOf settings text opening closing inner c
      (⟨opening.start, closing.stop, (v.converted settings).1⟩, v.after settings) := rfl

/-- The closings of a forest, in the order of the ends. -/
def closings : Forest → Counters → List Closing
  | nil, _ => []
  | leaf e rest, c => rest.closings (c.after settings text e)
  | environment opening closing inner rest, c =>
    let v := closingOf settings text opening closing inner c
    inner.closings (countersInside settings text opening c) ++
      v :: rest.closings (v.after settings)

/-- **Every environment of a forest is converted once**, when it ends. -/
theorem places_closings (forest : Forest) (c : Counters) :
    (forest.closings settings text c).map (fun v => (v.frame.name, v.frame.start)) =
      forest.environments.map fun p => (p.1.name, p.1.start) := by
  induction forest generalizing c with
  | nil => rfl
  | leaf e rest ih => exact ih _
  | environment opening closing inner rest ihInner ihRest =>
    rw [closings, environments, List.map_append, List.map_append, List.map_cons, List.map_cons,
      ihInner, ihRest]
    simp [closingOf]

/-- The frame of a closing was opened by a beginning of the text. -/
theorem frame_of_mem_closings {forest : Forest} {c : Counters} {v : Closing}
    (h : v ∈ forest.closings settings text c) : ∃ (opening : Marker) (register : TheoremRegister),
      v.frame = (frameAt settings register text opening.name opening.start opening.stop).1 := by
  induction forest generalizing c with
  | nil => cases h
  | leaf e rest ih => exact ih h
  | environment opening closing inner rest ihInner ihRest =>
    rcases List.mem_append.mp h with h | h
    · exact ihInner h
    · rcases List.mem_cons.mp h with rfl | h
      · exact ⟨opening, c.register, rfl⟩
      · exact ihRest h

/-- **Numbers follow each other**, and the count of the equations is that of the numbers. -/
theorem numbers_closings (forest : Forest) (c : Counters) :
    let shown := Closing.numbers settings (forest.closings settings text c)
    CountOn c.equations shown ∧
      (forest.outcome settings text c).2.equations = c.equations + shown.length := by
  induction forest generalizing c with
  | nil => exact ⟨rfl, rfl⟩
  | leaf e rest ih =>
    rw [outcome_leaf]
    exact ih _
  | environment opening closing inner rest ihInner ihRest =>
    generalize hv : closingOf settings text opening closing inner c = v
    generalize hms : Closing.numbers settings
      (inner.closings settings text (countersInside settings text opening c)) = ms
    generalize hns : Closing.numbers settings (rest.closings settings text (v.after settings)) = ns
    obtain ⟨hinner, hbefore⟩ := ihInner (countersInside settings text opening c)
    obtain ⟨hrest, hbehind⟩ := ihRest (v.after settings)
    rw [hms] at hinner hbefore
    rw [hns] at hrest hbehind
    have hcounters : v.counters =
        (inner.outcome settings text (countersInside settings text opening c)).2 := by
      rw [← hv]
      rfl
    have hequations : v.counters.equations = c.equations + ms.length :=
      (congrArg Counters.equations hcounters).trans hbefore
    have hshown : Closing.numbers settings
        ((environment opening closing inner rest).closings settings text c) =
          ms ++ (v.number? settings).toList ++ ns := by
      rw [closings, hv, Closing.numbers_append_cons, hms, hns]
    have hnumber : CountOn v.counters.equations (v.number? settings).toList := by
      rw [Closing.number?]
      cases v.tagged? settings <;> rfl
    have hafter : (v.after settings).equations =
        v.counters.equations + (v.number? settings).toList.length := v.equations_converted
    rw [hequations] at hnumber hafter
    rw [hafter] at hrest hbehind
    dsimp only
    rw [hshown, outcome_environment, environmentEdit_eq, hv]
    constructor
    · refine CountOn.append (CountOn.append hinner hnumber) ?_
      rw [List.length_append, ← Nat.add_assoc]
      exact hrest
    · refine hbehind.trans ?_
      rw [List.length_append, List.length_append]
      omega

end

end Forest

end TexMark.Environment
