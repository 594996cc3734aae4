/-
  TexMark/Proofs/Macro/Seams.lean
  ===============================
  **Control words of expanded texts.**  Macros are expanded by putting texts together as they are.
  A control word of the result is written in the document or in a definition, or it has been glued
  at a seam of the fragments of some pass (`controlWords_of_expansion`): what is copied, an
  argument or a literal text of a body may end with a command that is open, and letters may
  follow.

  Nothing is glued by macros whose literal texts guard their neighbours (`Guarded`), as those of
  all built-in macros do (`guarded_builtin`).
-/
import TexMark.Proofs.Macro.Expansion

namespace TexMark.Macro

open Scan (escapedBehind)
open Text (isAsciiLetter slice)
open Markup (controlWords glued? gluedWords openWord?)

/-! ### Several passes -/

def expandedBy (ms : List Macro) (text : Text) : Text := ms.foldl (fun t m => m.expanded t) text

def gluedIn : List Macro → Text → List Text
  | [], _ => []
  | m :: ms, text => gluedWords (m.fragments text) ++ gluedIn ms (m.expanded text)

variable {m : Macro} {ms : List Macro} {text w : Text}

theorem result_foldlM_expand (ms : List Macro) (text : Text) :
    (ms.foldlM (fun (t : Text) (m : Macro) => m.expand t) text).result =
      .ok (expandedBy ms text) := by
  induction ms generalizing text with
  | nil => rfl
  | cons m ms ih =>
    rw [List.foldlM_cons, Noted.bind_of_ok (result_expand m text)]
    exact ih (m.expanded text)

theorem result_expandAll (ms : List Macro) (text : Text) :
    (expandAll ms text).result = .ok (expandedBy (ms.mergeSort expandsBefore) text) :=
  result_foldlM_expand _ text

/-- **One pass**: a control word of the result is written in the text or in the definition of the
    macro, or glued. -/
theorem controlWords_expanded (hname : Closes m.name) (hw : w ∈ controlWords (m.expanded text)) :
    w ∈ controlWords text ∨ m.Brings w ∨ w ∈ gluedWords (m.fragments text) := by
  rcases Markup.controlWords_flatten hw with ⟨fragment, hfragment, hw⟩ | hglued
  · rcases controlWords_of_fragment hname hfragment hw with htext | hbrought
    · exact .inl htext
    · exact .inr (.inl hbrought)
  · exact .inr (.inr hglued)

theorem controlWords_expandedBy (hnames : ∀ m ∈ ms, Closes m.name)
    (hw : w ∈ controlWords (expandedBy ms text)) :
    w ∈ controlWords text ∨ (∃ m ∈ ms, m.Brings w) ∨ w ∈ gluedIn ms text := by
  induction ms generalizing text with
  | nil => exact .inl hw
  | cons m ms ih =>
    have hothers : ∀ m' ∈ ms, Closes m'.name := fun m' hm' => hnames m' (List.mem_cons_of_mem m hm')
    rcases ih hothers hw with hfirst | ⟨m', hm', hbrought⟩ | hglued
    · rcases controlWords_expanded (hnames m List.mem_cons_self) hfirst with htext | hbrought | hglued
      · exact .inl htext
      · exact .inr (.inl ⟨m, List.mem_cons_self, hbrought⟩)
      · exact .inr (.inr (List.mem_append_left _ hglued))
    · exact .inr (.inl ⟨m', List.mem_cons_of_mem m hm', hbrought⟩)
    · exact .inr (.inr (List.mem_append_right _ hglued))

/-! ### Guarded bodies -/

/-- A literal text that **guards** its neighbours: it begins with no letter, and at its end no
    command is open. -/
def Guards (literal : Text) : Prop :=
  literal.head?.any (fun c => !isAsciiLetter c) ∧ openWord? literal = none

instance decidableGuards (literal : Text) : Decidable (Guards literal) :=
  inferInstanceAs (Decidable (_ ∧ _))

/-- A macro whose literal texts all guard their neighbours, and whose default leaves no backslash
    open. -/
def Guarded (m : Macro) : Prop :=
  (∀ literal ∈ literals m.body, Guards literal) ∧
    ∀ value ∈ m.default?, escapedBehind false value = false

instance decidableGuarded (m : Macro) : Decidable (Guarded m) :=
  inferInstanceAs (Decidable (_ ∧ _))

theorem guarded_builtin : ∀ m ∈ builtin, m.Guarded := by decide

theorem Guards.head {literal : Text} (h : Guards literal) (pieces : List Text) :
    ∀ c ∈ ((literal :: pieces).flatten).head?, ¬ isAsciiLetter c := by
  intro c hc
  cases literal with
  | nil => cases h.1
  | cons d literal =>
    cases hc
    simpa using h.1

theorem gluedWords_cons_guard {literal : Text} (h : Guards literal) (pieces : List Text) :
    gluedWords (literal :: pieces) = gluedWords pieces := by
  rw [gluedWords, Markup.glued?_of_closed h.2]
  rfl

theorem gluedWords_cons_cons {piece literal : Text} (hpiece : escapedBehind false piece = false)
    (h : Guards literal) (pieces : List Text) :
    gluedWords (piece :: literal :: pieces) = gluedWords (literal :: pieces) := by
  rw [gluedWords, Markup.glued?_of_head hpiece (h.head pieces)]
  rfl

theorem gluedWords_filled {body : Text} (hbody : ∀ literal ∈ literals body, Guards literal)
    {args : List Text} (hargs : ∀ arg ∈ args, escapedBehind false arg = false)
    (pieces : List Text) : gluedWords (filled args body ++ pieces) = gluedWords pieces := by
  unfold filled
  unfold literals at hbody
  generalize template body = read at hbody ⊢
  obtain ⟨first, ps⟩ := read
  dsimp only at hbody ⊢
  induction ps generalizing first with
  | nil => exact gluedWords_cons_guard (hbody first List.mem_cons_self) pieces
  | cons p ps ih =>
    obtain ⟨hfirst, hothers⟩ := List.forall_mem_cons.mp hbody
    rw [List.map_cons] at hothers
    have harg : escapedBehind false ((args[p.1]?).getD []) = false := by
      cases h : args[p.1]? with
      | none => rfl
      | some arg => exact hargs arg (List.mem_of_getElem? h)
    have hsecond := hothers p.2 List.mem_cons_self
    rw [List.flatMap_cons, List.cons_append, gluedWords_cons_guard hfirst]
    simp only [List.cons_append, List.nil_append]
    rw [gluedWords_cons_cons harg hsecond]
    exact ih p.2 hothers

theorem escapedBehind_of_arg (hdefault : ∀ value ∈ m.default?, escapedBehind false value = false)
    {h : Hit Unit} : ∀ arg ∈ m.argsAt text h, escapedBehind false arg = false := by
  intro arg harg
  rcases (m.argumentsOf_spec (text.drop h.stop)).1 arg harg with hholds | hvalue
  · obtain ⟨_, _, _, _, -, -, -, hclear⟩ := hholds
    exact hclear
  · exact hdefault arg hvalue

/-- **A guarded macro glues nothing.** -/
theorem gluedWords_fragmentsFrom (hname : Closes m.name) (hguarded : m.Guarded) {cursor : Nat}
    {hs : List (Hit Unit)} (h : InTurn m text cursor hs)
    (hcursor : escapedBehind false (text.take cursor) = false) :
    gluedWords (m.fragmentsFrom text cursor hs) = [] := by
  -- the invariant is the state of the escapes at the cursor: no backslash is open there
  induction h with
  | nil =>
    have hlast : ∀ t, glued? t [] = none := by
      intro t
      cases hopen : openWord? t with
      | none => exact Markup.glued?_of_closed hopen []
      | some w =>
        have hletters : Markup.lettersBehind w [] = [] := by
          rw [Markup.lettersBehind, Markup.pairsDropped, ite_self]
          · rfl
          · intro t ht
            cases ht
        rw [glued?, hopen, Option.bind_some, if_pos hletters]
    rw [fragmentsFrom, gluedWords, List.flatten_nil, hlast]
    rfl
  | @cons cursor h hs hle hescaped hread hstart hrest ih =>
    have hclear := escapedBehind_stopAt hname hescaped hread
    have hcopied : escapedBehind false (slice text cursor h.start) = false := by
      have htake : text.take h.start = text.take cursor ++ slice text cursor h.start := by
        have htext := Text.take_append_slice text hle
        rw [← List.append_assoc] at htext
        exact List.append_cancel_right ((List.take_append_drop h.start text).trans htext.symm)
      rw [Scan.isEscaped_eq, htake, Scan.escapedBehind_append, hcursor] at hescaped
      exact hescaped
    have hfirst : Guards (template m.body).1 := hguarded.1 _ List.mem_cons_self
    rw [fragmentsFrom, filled, List.cons_append, gluedWords_cons_cons hcopied hfirst,
      ← List.cons_append]
    exact (gluedWords_filled hguarded.1 (escapedBehind_of_arg hguarded.2) _).trans (ih hclear)

theorem gluedIn_of_guarded (hnames : ∀ m ∈ ms, Closes m.name) (hguarded : ∀ m ∈ ms, m.Guarded)
    (text : Text) : gluedIn ms text = [] := by
  induction ms generalizing text with
  | nil => rfl
  | cons m ms ih =>
    obtain ⟨hname, hnames⟩ := List.forall_mem_cons.mp hnames
    obtain ⟨hm, hguarded⟩ := List.forall_mem_cons.mp hguarded
    have hpass : gluedWords (m.fragments text) = [] :=
      gluedWords_fragmentsFrom hname hm (inTurn_invocations m text) rfl
    rw [gluedIn, hpass, ih hnames hguarded]
    rfl

/-! ### Expansion -/

/-- **Where the control words of an expanded text come from**: the text, the body or the default of
    a macro, or a seam; and no seam glues anything if the bodies of the macros are guarded. -/
theorem controlWords_of_expansion (ms : List Macro) (hnames : ∀ m ∈ ms, Closes m.name)
    (text : Text) : ∃ shown, (expandAll ms text).result = .ok shown ∧
      (∀ w ∈ controlWords shown, w ∈ controlWords text ∨ (∃ m ∈ ms, m.Brings w) ∨
        w ∈ gluedIn (ms.mergeSort expandsBefore) text) ∧
      ((∀ m ∈ ms, m.Guarded) → gluedIn (ms.mergeSort expandsBefore) text = []) := by
  have hsorted : ∀ m ∈ ms.mergeSort expandsBefore, m ∈ ms := fun m hm => List.mem_mergeSort.mp hm
  refine ⟨_, result_expandAll ms text, ?_, ?_⟩
  · intro w hw
    rcases controlWords_expandedBy (fun m hm => hnames m (hsorted m hm)) hw with
      htext | ⟨m, hm, hbrought⟩ | hglued
    · exact .inl htext
    · exact .inr (.inl ⟨m, hsorted m hm, hbrought⟩)
    · exact .inr (.inr hglued)
  · intro hguarded
    exact gluedIn_of_guarded (fun m hm => hnames m (hsorted m hm))
      (fun m hm => hguarded m (hsorted m hm)) text

theorem controlWords_of_expansion_builtin :
    (∀ m ∈ builtin, Closes m.name) ∧ (∀ m ∈ builtin, m.Guarded) ∧
      let text : Text := "\\R\\norm" ++ Text.braced "\\alpha"
      ∃ shown, (expandAll builtin text).result = .ok shown ∧
        ∀ w ∈ controlWords shown, w ∈ controlWords text ∨ ∃ m ∈ builtin, m.Brings w := by
  have hnames : ∀ m ∈ builtin, Closes m.name := by decide
  obtain ⟨shown, hresult, hwords, hguarded⟩ :=
    controlWords_of_expansion builtin hnames ("\\R\\norm" ++ Text.braced "\\alpha")
  refine ⟨hnames, guarded_builtin, shown, hresult, ?_⟩
  intro w hw
  rcases hwords w hw with htext | hbrought | hglued
  · exact .inl htext
  · exact .inr hbrought
  · rw [hguarded guarded_builtin] at hglued
    cases hglued

/-- **A command is glued** from the end of what is copied and the body behind it.  And an invocation
    that ends with its backslash takes the escape from the next one. -/
theorem glued_at_seam :
    let letter : Macro := ⟨"x", 0, "a", none⟩
    let nameless : Macro := ⟨"", 0, "", none⟩
    (expandAll [letter] "\\alph\\x").result = .ok "\\alpha" ∧
      (expandAll [nameless] "\\\\alpha").result = .ok "\\alpha" ∧
      ("alpha" : Text) ∈ controlWords "\\alpha" ∧
      ("alpha" : Text) ∉ controlWords "\\alph\\x" ∧ ¬ letter.Brings "alpha" ∧
      ("alpha" : Text) ∉ controlWords "\\\\alpha" ∧ ¬ nameless.Brings "alpha" ∧
      ("alpha" : Text) ∉ gluedIn [nameless] "\\\\alpha" ∧ ¬ Closes nameless.name := by
  intro letter nameless
  have hbrings : ∀ m : Macro, m.default? = none → ("alpha" : Text) ∉ controlWords m.body →
      ¬ m.Brings "alpha" := by
    rintro m hdefault hbody (hw | ⟨value, hvalue, -⟩)
    · exact hbody hw
    · rw [hdefault] at hvalue
      cases hvalue
  refine ⟨?_, ?_, by decide, by decide, hbrings _ rfl (by decide), by decide,
    hbrings _ rfl (by decide), by decide, by decide⟩
  · rw [result_expandAll, List.mergeSort_singleton]
    rfl
  · rw [result_expandAll, List.mergeSort_singleton]
    rfl

end TexMark.Macro
