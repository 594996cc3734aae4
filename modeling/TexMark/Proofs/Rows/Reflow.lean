/-
  TexMark/Proofs/Rows/Reflow.lean
  ===============================
  **Rows written one on a line.**  A formula whose rows are written one on a line is divided into
  the same rows as before (`rawRows_reflow`), so that writing it a second time changes nothing
  (`reflow_stable`).  Only blanks are lost on the way, and the separators with nothing behind them.
-/
import Mathlib.Data.List.Forall2
import TexMark.Proofs.Rows.Spacing

namespace TexMark.Rows

open Text (isBlank strip skipBlanks)
open Scan (escapedBehind escapedBehind_concat)

variable {r s t : Text} {rs : List Text}

/-! ### Empty rows at the end -/

theorem forall_getLast?_cons_iff {first : Text} {rows : List Text} :
    (∀ last ∈ (first :: rows).getLast?, last ≠ []) ↔
      ¬ (first = [] ∧ rows = []) ∧ ∀ last ∈ rows.getLast?, last ≠ [] := by
  rcases List.eq_nil_or_concat rows with rfl | ⟨front, row, rfl⟩
  · simp
  · simp [List.getLast?_cons]

theorem dropEmptyTail_cons {first : Text} {rows : List Text}
    (hdrop : dropEmptyTail rs = first :: rows) (hempty : ¬ (first = [] ∧ rows = [])) (r : Text) :
    dropEmptyTail (r :: rs) = r :: first :: rows := by
  rw [dropEmptyTail, hdrop]
  split
  · rename_i heq
    cases heq
  · rename_i heq
    cases heq
    exact absurd ⟨rfl, rfl⟩ hempty
  · rfl

theorem dropEmptyTail_eq_self (h : ∀ last ∈ rs.getLast?, last ≠ []) (r : Text) :
    dropEmptyTail (r :: rs) = r :: rs := by
  induction rs generalizing r with
  | nil => rfl
  | cons next rs ih =>
    obtain ⟨hempty, hlast⟩ := forall_getLast?_cons_iff.mp h
    exact dropEmptyTail_cons (ih hlast next) hempty r

/-- What is dropped is empty, and what is kept does not end with an empty row. -/
theorem exists_dropEmptyTail (r : Text) (rs : List Text) : ∃ first rows n,
    dropEmptyTail (r :: rs) = first :: rows ∧
    r :: rs = (first :: rows) ++ List.replicate n [] ∧ ∀ last ∈ rows.getLast?, last ≠ [] := by
  induction rs generalizing r with
  | nil => exact ⟨r, [], 0, rfl, rfl, by simp⟩
  | cons next rs ih =>
    obtain ⟨first, rows, n, hdrop, heq, hlast⟩ := ih next
    rw [heq]
    by_cases hempty : first = [] ∧ rows = []
    · obtain ⟨rfl, rfl⟩ := hempty
      refine ⟨r, [], n + 1, ?_, rfl, by simp⟩
      rw [← heq, dropEmptyTail, hdrop]
    · refine ⟨r, first :: rows, n, ?_, rfl, forall_getLast?_cons_iff.mpr ⟨hempty, hlast⟩⟩
      rw [← heq]
      exact dropEmptyTail_cons hdrop hempty r

/-! ### A row behind its separator -/

/-- What stands behind a separator when a row is written: a spacing argument stays there. -/
def laid (r : Text) : Text :=
  match spacing? r with
  | some (spacing, rest) => spacing ++ '\n' :: strip rest
  | none => '\n' :: r

theorem continued_eq (r : Text) : continued r = ' ' :: '\\' :: '\\' :: laid r := by
  rw [continued, laid]
  cases spacing? r <;> simp

theorem laid_cases (r : Text) : (spacing? r = none ∧ laid r = '\n' :: r) ∨
    ∃ s rest, IsSpacing s ∧ r = s ++ rest ∧ spacing? r = some (s, rest) ∧
      laid r = s ++ '\n' :: strip rest := by
  cases h : spacing? r with
  | none => exact .inl ⟨rfl, by rw [laid, h]⟩
  | some found =>
    obtain ⟨s, rest⟩ := found
    obtain ⟨hs, hr⟩ := spacing?_eq_some_iff.mp h
    exact .inr ⟨s, rest, hs, hr, rfl, by rw [laid, h]⟩

theorem marks_laid (r : Text) : marks (laid r) = marks r := by
  have hfeed (t : Text) : marks ('\n' :: t) = marks t :=
    marks_append_left (u := ['\n']) (by simp [IsPlain]) t
  rcases laid_cases r with ⟨-, hlaid⟩ | ⟨s, rest, hs, hr, -, hlaid⟩
  · rw [hlaid, hfeed]
  · rw [hlaid, hr, marks_append_left hs.isPlain, marks_append_left hs.isPlain, hfeed,
      marks_strip]

/-- Two rows are alike: they are equal, or they begin with the same spacing argument and differ in
    the blanks behind it. -/
inductive Alike : Text → Text → Prop where
  | refl (r : Text) : Alike r r
  | spacing {r r' s rest rest' : Text} (hr : spacing? r = some (s, rest))
    (hr' : spacing? r' = some (s, rest')) (hrest : skipBlanks rest = skipBlanks rest') : Alike r r'

theorem skipBlanks_eq_self (ht : strip t = t) : skipBlanks t = t := by
  cases t with
  | nil => rfl
  | cons c t =>
    have hc : ¬ isBlank c := Text.head?_strip (t := c :: t) (by rw [ht]; rfl)
    exact List.dropWhile_cons_of_neg hc

theorem skipBlanks_eq_strip (h : strip (s ++ t) = s ++ t) : skipBlanks t = strip t := by
  refine (List.rdropWhile_eq_self_iff.mpr fun hne => ?_).symm
  have hsplit : s ++ t = s ++ t.takeWhile isBlank ++ skipBlanks t := by
    rw [List.append_assoc, skipBlanks, List.takeWhile_append_dropWhile]
  have hlast : (s ++ t).getLast? = some ((skipBlanks t).getLast hne) := by
    rw [hsplit, List.getLast?_append_of_ne_nil _ hne, List.getLast?_eq_some_getLast hne]
  exact Text.getLast?_strip (t := s ++ t) (by rw [h]; exact hlast)

/-- The blanks around a row that begins with a spacing argument. -/
theorem exists_strip_spacing (hs : IsSpacing s) (ht : strip t = t) :
    ∃ rest, strip (s ++ '\n' :: t) = s ++ rest ∧ skipBlanks rest = t ∧ strip rest = t := by
  obtain ⟨inner, rfl⟩ := hs.exists_eq
  have hfirst (u : Text) : ∀ c ∈ ('[' :: (inner ++ [']']) ++ u).head?, ¬ isBlank c := by
    simp [isBlank]
  cases t with
  | nil =>
    refine ⟨[], ?_, rfl, rfl⟩
    rw [Text.strip_append_blank (List.all_eq_true.mp rfl), List.append_nil]
    refine Text.strip_eq_self (hfirst []) ?_
    rw [← List.cons_append, List.getLast?_append_of_ne_nil _ (by simp)]
    simp [isBlank]
  | cons c t =>
    refine ⟨'\n' :: c :: t, Text.strip_eq_self (hfirst _) fun d hd => ?_, ?_, ?_⟩
    · rw [List.getLast?_append_of_ne_nil _ (by simp), List.getLast?_cons_cons] at hd
      exact Text.getLast?_strip (t := c :: t) (by rwa [ht])
    · exact (List.dropWhile_cons_of_pos (by decide)).trans (skipBlanks_eq_self ht)
    · exact (rfl : strip ('\n' :: c :: t) = strip (c :: t)).trans ht

theorem strip_laid (hr : strip r = r) :
    Alike r (strip (laid r)) ∧ laid (strip (laid r)) = laid r := by
  rcases laid_cases r with ⟨hnone, hlaid⟩ | ⟨s, rest, hs, rfl, hsome, hlaid⟩
  · have hsame : strip (laid r) = r := by
      rw [hlaid]
      exact hr
    rw [hsame]
    exact ⟨.refl r, rfl⟩
  · obtain ⟨rest', hstrip, hskip, hrest⟩ := exists_strip_spacing hs (Text.strip_strip rest)
    rw [hlaid, hstrip]
    have hsome' : spacing? (s ++ rest') = some (s, rest') := spacing?_eq_some_iff.mpr ⟨hs, rfl⟩
    refine ⟨.spacing hsome hsome' ?_, ?_⟩
    · rw [skipBlanks_eq_strip hr, hskip]
    · rw [laid, hsome']
      simp only [hrest]

theorem Alike.eq_nil (h : Alike r []) : r = [] := by
  cases h with
  | refl => rfl
  | spacing hr hr' => cases hr'

/-! ### The rows of a formula that is written again -/

theorem isBlank_space : ∀ c ∈ [' '], isBlank c := List.all_eq_true.mp rfl

/-- The rows between the separators of a formula that is written, the first of them laid. -/
def stretch : Text → List Text → List Text
  | r, [] => [r]
  | r, next :: rs => (r ++ [' ']) :: stretch (laid next) rs

theorem stretch_ne_nil (r : Text) (rs : List Text) : stretch r rs ≠ [] := by
  cases rs <;> simp [stretch]

theorem join_stretch (r : Text) (rs : List Text) :
    Text.join "\\\\" (stretch r rs) = join (r :: rs) := by
  induction rs generalizing r with
  | nil => simp [stretch, Text.join_cons, join]
  | cons next rs ih =>
    rw [stretch, join_cons_of_ne_nil (stretch_ne_nil _ rs), ih, join, join, List.flatMap_cons,
      continued_eq]
    simp

theorem isRows_stretch {r' : Text} (h : IsRows top (r :: rs)) (hr : marks r' = marks r) :
    IsRows top (stretch r' rs) := by
  induction rs generalizing r r' with
  | nil =>
    cases h with
    | last hpasses => exact .last (hr ▸ hpasses)
    | cons _ hnil => exact absurd rfl hnil.ne_nil
  | cons next rs ih =>
    cases h with
    | cons hpasses hrs =>
      have hblank : marks (r' ++ [' ']) = marks r' := marks_append_blank isBlank_space r'
      exact .cons (by rwa [hblank, hr]) (ih hrs (marks_laid next))

theorem escapedBehind_of_mem_stretch :
    ∀ x ∈ (stretch r rs).dropLast, escapedBehind false x = false := by
  induction rs generalizing r with
  | nil => simp [stretch]
  | cons next rs ih =>
    rw [stretch, List.dropLast_cons_of_ne_nil (stretch_ne_nil _ rs)]
    exact List.forall_mem_cons.mpr ⟨escapedBehind_concat false r (by decide), ih⟩

theorem map_strip_stretch (r : Text) (rs : List Text) :
    (stretch r rs).map strip = strip r :: rs.map fun x => strip (laid x) := by
  induction rs generalizing r with
  | nil => rfl
  | cons next rs ih =>
    have hblank : strip (r ++ [' ']) = strip r := Text.strip_append_blank isBlank_space r
    rw [stretch, List.map_cons, hblank, ih, List.map_cons]

theorem IsRows.map_strip {d : Depth} (h : IsRows d rs) : IsRows d (rs.map strip) := by
  induction h with
  | last hr => exact .last (by rwa [marks_strip])
  | cons hr _ ih => exact .cons (by rwa [marks_strip]) ih

theorem IsRows.of_append {d : Depth} {more : List Text} (h : IsRows d (r :: rs ++ more)) :
    IsRows d (r :: rs) := by
  induction rs generalizing d r with
  | nil =>
    cases h with
    | last hr => exact .last hr
    | cons hr _ => exact .last hr
  | cons next rs ih =>
    cases h with
    | cons hr hrs => exact .cons hr (ih hrs)

/-- **What a formula is divided into.**  Its rows are the raw rows without their blanks, and without
    the empty ones at the end. -/
theorem exists_split (c : Text) : ∃ first rows n, split c = first :: rows ∧
    (rawRows c).map strip = split c ++ List.replicate n [] ∧
    ∀ last ∈ rows.getLast?, last ≠ [] := by
  obtain ⟨row, more, hraw⟩ := List.exists_cons_of_ne_nil (isRows_rawRows c).map_strip.ne_nil
  obtain ⟨first, rows, n, hdrop, heq, hlast⟩ := exists_dropEmptyTail row more
  have hsplit : split c = first :: rows := by
    rw [← hdrop, ← hraw]
    rfl
  exact ⟨first, rows, n, hsplit, by rw [hsplit, hraw, heq], hlast⟩

theorem isRows_split (c : Text) : IsRows top (split c) := by
  obtain ⟨first, rows, n, hsplit, hraw, -⟩ := exists_split c
  have := (isRows_rawRows c).map_strip
  rw [hraw, hsplit] at this
  rw [hsplit]
  exact this.of_append

theorem strip_of_mem_split {c : Text} (hr : r ∈ split c) : strip r = r := by
  obtain ⟨first, rows, n, hsplit, hraw, -⟩ := exists_split c
  have hmem : r ∈ (rawRows c).map strip := by
    rw [hraw]
    exact List.mem_append_left _ hr
  obtain ⟨x, -, rfl⟩ := List.mem_map.mp hmem
  exact Text.strip_strip x

/-- **The raw rows of what is written** are the rows, spread over the lines. -/
theorem rawRows_reflow {c : Text} {first : Text} {rows : List Text} (h : split c = first :: rows) :
    rawRows (reflow c) = stretch first rows := by
  have hrows : IsRows top (stretch first rows) := isRows_stretch (h ▸ isRows_split c) rfl
  rw [reflow, h, ← join_stretch]
  exact splitPieces_join hrows escapedBehind_of_mem_stretch

/-- Written again, a formula keeps its first row, and its other rows are alike. -/
theorem split_reflow {c : Text} {first : Text} {rows : List Text} (h : split c = first :: rows) :
    split (reflow c) = first :: rows.map fun x => strip (laid x) := by
  obtain ⟨first', rows', n, hsplit, -, hlast⟩ := exists_split c
  rw [h, List.cons.injEq] at hsplit
  obtain ⟨rfl, rfl⟩ := hsplit
  have hstrip {r : Text} (hr : r ∈ first :: rows) : strip r = r := strip_of_mem_split (h ▸ hr)
  have hkept : ∀ last ∈ (rows.map fun x => strip (laid x)).getLast?, last ≠ [] := by
    intro last hmem hnil
    rw [List.getLast?_map] at hmem
    obtain ⟨x, hx, rfl⟩ := Option.map_eq_some_iff.mp hmem
    have halike := (strip_laid (hstrip (List.mem_cons_of_mem first (List.mem_of_getLast? hx)))).1
    rw [hnil] at halike
    exact hlast x hx halike.eq_nil
  have hraw : split (reflow c) = dropEmptyTail ((rawRows (reflow c)).map strip) := rfl
  rw [hraw, rawRows_reflow h, map_strip_stretch, hstrip List.mem_cons_self,
    dropEmptyTail_eq_self hkept]

/-! ### What is lost -/

/-- A text without its blanks. -/
def ink (t : Text) : Text := t.filter fun c => !isBlank c

theorem ink_append (s t : Text) : ink (s ++ t) = ink s ++ ink t := List.filter_append s t

theorem ink_eq_nil (ht : ∀ c ∈ t, isBlank c) : ink t = [] := by
  simpa [ink] using ht

theorem ink_strip (t : Text) : ink (strip t) = ink t := by
  obtain ⟨u, v, ht, hu, hv⟩ := Text.exists_strip t
  conv_rhs => rw [ht]
  rw [ink_append, ink_append, ink_eq_nil hu, ink_eq_nil hv, List.append_nil, List.nil_append]

theorem ink_laid (r : Text) : ink (laid r) = ink r := by
  rcases laid_cases r with ⟨-, hlaid⟩ | ⟨s, rest, -, rfl, -, hlaid⟩
  · rw [hlaid]
    rfl
  · rw [hlaid, ink_append, ink_append]
    exact congrArg (ink s ++ ·) (ink_strip rest)

theorem map_ink_stretch (r : Text) (rs : List Text) :
    (stretch r rs).map ink = (r :: rs).map ink := by
  induction rs generalizing r with
  | nil => rfl
  | cons next rs ih =>
    have hblank : ink (r ++ [' ']) = ink r := by
      rw [ink_append, ink_eq_nil isBlank_space, List.append_nil]
    rw [stretch, List.map_cons, hblank, ih, List.map_cons, ink_laid, List.map_cons, List.map_cons]

theorem ink_join (rs : List Text) : ink (Text.join "\\\\" rs) = Text.join "\\\\" (rs.map ink) := by
  cases rs with
  | nil => rfl
  | cons r rs =>
    rw [List.map_cons, Text.join_cons, Text.join_cons, ink_append, List.flatMap_map]
    exact congrArg (ink r ++ ·) List.filter_flatMap

theorem join_append_replicate (n : Nat) (r : Text) (rs : List Text) :
    Text.join "\\\\" (r :: rs ++ List.replicate n []) =
      Text.join "\\\\" (r :: rs) ++ (List.replicate n "\\\\".toList).flatten := by
  rw [List.cons_append, Text.join_cons, Text.join_cons, List.flatMap_append, List.append_assoc]
  simp [List.flatMap_def]

/-- **Rows written one on a line stay as they are.**  The formula that is written has the rows of
    the one that was read, alike one by one, and is not changed by writing it again.  Only blanks
    are lost, and the separators in front of the empty rows at the end. -/
theorem reflow_stable (c : Text) :
    List.Forall₂ Alike (split c) (split (reflow c)) ∧ reflow (reflow c) = reflow c ∧
    ∃ n, (rawRows c).map strip = split c ++ List.replicate n [] ∧
      ink c = ink (reflow c) ++ (List.replicate n "\\\\".toList).flatten := by
  obtain ⟨first, rows, n, hsplit, hraw, -⟩ := exists_split c
  have hlaid {r : Text} (hr : r ∈ rows) :
      Alike r (strip (laid r)) ∧ laid (strip (laid r)) = laid r := by
    apply strip_laid
    apply strip_of_mem_split
    rw [hsplit]
    exact List.mem_cons_of_mem first hr
  refine ⟨?_, ?_, n, hraw, ?_⟩
  · rw [split_reflow hsplit, hsplit]
    refine .cons (.refl first) ?_
    rw [List.forall₂_map_right_iff, List.forall₂_same]
    exact fun r hr => (hlaid hr).1
  · have hagain : (rows.map fun x => strip (laid x)).flatMap continued =
        rows.flatMap continued := by
      rw [List.flatMap_map]
      refine List.flatMap_congr fun r hr => ?_
      rw [continued_eq, continued_eq, (hlaid hr).2]
    rw [reflow, split_reflow hsplit, join, hagain, reflow, hsplit, join]
  · -- row by row, stripping and laying take away blanks only
    have hink : (rawRows c).map ink = (split c ++ List.replicate n []).map ink := by
      rw [← hraw, List.map_map]
      exact List.map_congr_left fun r _ => (ink_strip r).symm
    rw [reflow, hsplit, ← join_stretch, ink_join, map_ink_stretch, List.map_cons,
      ← join_append_replicate]
    conv_lhs => rw [← join_rawRows c]
    rw [ink_join, hink, hsplit, List.map_append, List.map_replicate]
    rfl

end TexMark.Rows
