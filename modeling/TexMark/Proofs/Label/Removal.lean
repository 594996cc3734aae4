/-
  TexMark/Proofs/Label/Removal.lean
  =================================
  **Taking labels out.**  The labels of a text are numbered in one scan and taken out in another,
  which does not ask whether a label is escaped.

    * `mem_hits_erased_iff` — the second scan finds the labels that the first one finds, each with
      the blanks behind it (`extent`);
    * `removeAll_eq` — what it leaves is the text outside of all of them;
    * `removed_of_removeAll` — so exactly the numbered labels are taken out just if none is escaped.
-/
import TexMark.Proofs.Label.Numbers

namespace TexMark

/-- What follows a run of characters of a class keeps an end that begins with another one. -/
theorem Text.suffix_dropWhile {p : Char → Bool} {c : Char} {s t : Text} (hc : p c = false)
    (h : c :: s <:+ t) : c :: s <:+ t.dropWhile p := by
  obtain ⟨u, rfl⟩ := h
  rw [List.dropWhile_append]
  split
  · rw [List.dropWhile_cons_of_neg (by simp [hc])]
  · exact List.suffix_append _ _

namespace Label

open Text (isLineBlank)

/-- The place of a label with the blanks and tabs behind it. -/
def extent (text : Text) (h : Hit Text) : Nat × Nat :=
  (h.start, h.stop + ((text.drop h.stop).takeWhile isLineBlank).length)

theorem erased_eq_some_iff {before t value after : Text} :
    erased before t = some (value, after) ↔ value = [] ∧
      ∃ name rest, command before t = some (name, rest) ∧ after = rest.dropWhile isLineBlank := by
  rw [erased, Option.map_eq_some_iff]
  constructor
  · rintro ⟨⟨name, rest⟩, hcommand, heq⟩
    cases heq
    exact ⟨rfl, name, rest, hcommand, rfl⟩
  · rintro ⟨rfl, name, rest, hcommand, rfl⟩
    exact ⟨(name, rest), hcommand, rfl⟩

theorem advances_erased : Scan.Advances erased := by
  intro before t value after h
  obtain ⟨-, name, rest, hcommand, rfl⟩ := erased_eq_some_iff.mp h
  exact Text.Behind.suffix_trans (List.dropWhile_suffix _)
    (flatCommand_command.advances _ _ _ _ hcommand)

/-- What is left of a text behind a label and its blanks. -/
theorem drop_extent (text : Text) (h : Hit Text) :
    text.drop (extent text h).2 = (text.drop h.stop).dropWhile isLineBlank := by
  have hsplit := List.takeWhile_append_dropWhile (p := isLineBlank) (l := text.drop h.stop)
  exact (Text.drop_of_drop hsplit.symm).trans rfl

theorem extent_bounds {text : Text} {h : Hit Text} (hle : h.stop ≤ text.length) :
    h.stop ≤ (extent text h).2 ∧ (extent text h).2 ≤ text.length := by
  have hrun := (List.takeWhile_prefix isLineBlank (l := text.drop h.stop)).length_le
  rw [List.length_drop] at hrun
  rw [extent]
  dsimp only
  omega

/-- **What is taken out** are the labels that can be read, each with its blanks. -/
theorem mem_hits_erased_iff {text : Text} {e : Hit Text} : e ∈ Scan.hits erased text ↔
    e.value = [] ∧ ∃ h ∈ Scan.hits command text, (e.start, e.stop) = extent text h := by
  constructor
  · intro hmem
    obtain ⟨hread, hlt, hle⟩ := Scan.hit_spec advances_erased hmem
    obtain ⟨hvalue, name, rest, hcommand, hafter⟩ := erased_eq_some_iff.mp hread
    obtain ⟨hsuffix, hshorter⟩ := flatCommand_command.advances _ _ _ _ hcommand
    have hlength := hsuffix.length_le
    rw [List.length_drop] at hlength hshorter
    let h : Hit Text := ⟨e.start, text.length - rest.length, name⟩
    have hrest : text.drop h.stop = rest :=
      (List.suffix_iff_eq_drop.mp (hsuffix.trans (List.drop_suffix _ _))).symm
    have hh : Scan.IsRead command text h :=
      ⟨hrest.symm ▸ hcommand, by dsimp only [h]; omega, Nat.sub_le _ _⟩
    have hstop : text.drop e.stop = text.drop (extent text h).2 := by
      rw [drop_extent, hrest, hafter]
    have hbounds := extent_bounds hh.le
    have hsame := congrArg List.length hstop
    rw [List.length_drop, List.length_drop] at hsame
    have hstop : e.stop = (extent text h).2 := by omega
    exact ⟨hvalue, h, flatCommand_command.mem_hits_iff_isRead.mpr hh, Prod.ext rfl hstop⟩
  · rintro ⟨hvalue, h, hmem, hextent⟩
    obtain ⟨hread, hlt, hle⟩ := flatCommand_command.mem_hits_iff_isRead.mp hmem
    have hbounds := extent_bounds hle
    obtain ⟨hstart, hstop⟩ : e.start = h.start ∧ e.stop = (extent text h).2 := Prod.mk.inj hextent
    have herased : erased (text.take e.start).reverse (text.drop e.start) =
        some (e.value, text.drop e.stop) := by
      rw [hstart, hstop]
      exact erased_eq_some_iff.mpr ⟨hvalue, h.value, _, hread, drop_extent text h⟩
    refine Scan.mem_hits_of_border advances_erased herased (by omega) (by omega) ?_
    obtain ⟨u, inner, hdrop, hu, -⟩ := flatCommand_command _ _ _ _ hread
    intro x v value after _ hv hfound
    obtain ⟨-, name, rest, hcommand, rfl⟩ := erased_eq_some_iff.mp hfound
    rw [hstart, hdrop] at hcommand ⊢
    exact Text.suffix_dropWhile (by decide)
      (flatCommand_command.border (fun c hc => (hu c hc).2) hv hcommand)

/-- **What the removal leaves** is the text outside of all labels. -/
theorem removeAll_eq (text : Text) :
    removeAll text = Text.outside ((Scan.hits command text).map (extent text)) text := by
  have hranges : ∀ r, r ∈ (Scan.hits erased text).map (fun h => (h.start, h.stop)) ↔
      r ∈ (Scan.hits command text).map (extent text) := by
    intro r
    simp only [List.mem_map, mem_hits_erased_iff]
    constructor
    · rintro ⟨e, ⟨-, h, hmem, hextent⟩, rfl⟩
      exact ⟨h, hmem, hextent.symm⟩
    · rintro ⟨h, hmem, rfl⟩
      exact ⟨⟨_, _, []⟩, ⟨rfl, h, hmem, rfl⟩, rfl⟩
  have herased := Scan.replaceFrom_eq_outsideFrom advances_erased
    (fun _ _ _ _ h => (erased_eq_some_iff.mp h).1) 0 [] 0 text
  rw [removeAll, Scan.replace, herased]
  exact Text.outsideFrom_congr hranges 0 text

/-- A label behind another one begins behind the blanks of that one as well. -/
theorem extent_le {text : Text} {h h' : Hit Text} (hle : h.stop ≤ text.length)
    (hread : Scan.IsRead command text h') (hstop : h.stop ≤ h'.start) :
    (extent text h).2 ≤ h'.start := by
  obtain ⟨u, inner, hdrop, -, -⟩ := flatCommand_command _ _ _ _ hread.read
  have hbehind : text.drop h'.start <:+ text.drop h.stop := List.drop_suffix_drop_left text hstop
  rw [hdrop] at hbehind
  have hrest := Text.suffix_dropWhile (p := isLineBlank) (by decide) hbehind
  rw [← drop_extent, ← hdrop] at hrest
  have hlength := hrest.length_le
  rw [List.length_drop, List.length_drop] at hlength
  have := (extent_bounds hle).2
  have := hread.lt
  have := hread.le
  omega

theorem pairwise_extent (text : Text) :
    (Scan.hits command text).Pairwise fun a b => (extent text a).2 ≤ b.start := by
  refine (Scan.pairwise_hits command text).imp_of_mem ?_
  intro a b ha hb hab
  exact extent_le (Scan.bounds_of_mem_hits ha).2
    (flatCommand_command.mem_hits_iff_isRead.mp hb) hab.1

/-- Of two labels, one is taken out in front of the other. -/
theorem extent_le_or {text : Text} {h h' : Hit Text} (hmem : h ∈ Scan.hits command text)
    (hmem' : h' ∈ Scan.hits command text) (hne : h ≠ h') :
    (extent text h).2 ≤ h'.start ∨ (extent text h').2 ≤ h.start :=
  apart_of_pairwise (pairwise_extent text) hmem hmem' hne

/-- **The removal takes out every label**, and so it takes out those that are numbered, and no
    others, just if none is escaped. -/
theorem removed_of_removeAll (base : Int) (text : Text) :
    ∃ (commands : List (Hit Text)) (records : List Record),
      (∀ h, h ∈ commands ↔ Scan.IsRead command text h) ∧
      (commands.Pairwise fun a b => (extent text a).2 ≤ b.start) ∧
      (collect base text).result = .ok (tableOf records) ∧
      Numbering base text (commands.filter fun h => !Scan.isEscaped text h.start) records ∧
      removeAll text = Text.outside (commands.map (extent text)) text ∧
      (removeAll text = Text.outside
          ((commands.filter fun h => !Scan.isEscaped text h.start).map (extent text)) text ↔
        ∀ h ∈ commands, Scan.isEscaped text h.start = false) := by
  refine ⟨Scan.hits command text, recordsFrom base text [] (found text),
    fun h => flatCommand_command.mem_hits_iff_isRead, pairwise_extent text,
    congrArg Noted.result (collect_eq ..), numbering_recordsFrom base text, removeAll_eq text, ?_⟩
  rw [removeAll_eq]
  constructor
  · intro hsame h hmem
    by_contra hescaped
    obtain ⟨hread, hlt, hle⟩ := flatCommand_command.mem_hits_iff_isRead.mp hmem
    have hbounds := extent_bounds hle
    -- the backslash of an escaped label is taken out, and lies in none of the others
    refine Text.outside_ne_of_subset (List.map_subset _ List.filter_sublist.subset)
      (List.mem_map_of_mem hmem) (Nat.lt_of_lt_of_le hlt hbounds.1) (Nat.lt_of_lt_of_le hlt hle)
      ?_ hsame
    intro r hr
    obtain ⟨h', hmem', rfl⟩ := List.mem_map.mp hr
    obtain ⟨hmem', hunescaped⟩ := List.mem_filter.mp hmem'
    have hne : h ≠ h' := by
      rintro rfl
      exact hescaped (by simpa using hunescaped)
    rcases extent_le_or hmem hmem' hne with hbehind | hbefore
    · have hlt' : h.start < h'.start := by omega
      exact .inl hlt'
    · exact .inr hbefore
  · intro hall
    rw [List.filter_eq_self.mpr fun h hmem => by simp [hall h hmem]]

/-- An escaped label is not numbered, but it is taken out, and what stands behind it is read as a
    command with the backslash that is left. -/
theorem escaped_taken_out :
    let text : Text := "\\\\label{x} y"
    (collect 1 text).result = .ok [] ∧ removeAll text = "\\y" ∧
      ¬ ∀ h ∈ Scan.hits command text, Scan.isEscaped text h.start = false := by
  decide +kernel

end Label

end TexMark
