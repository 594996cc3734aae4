/-
  TexMark/Proofs/Settings/Margins.lean
  ====================================
  **Blanks around values.**  A value is stored as it is, and what its line gives back is the
  value without the blanks at its end and without the quotes around it.  A value with no quotes
  loses nothing but these blanks (`Text.trim_isQuote_stripEnd`).

  What is left are the blanks in front.  Where an integer is read they do not matter
  (`Integer.read_append_margin`), unless there is an information separator among them: then
  nothing is read (`Integer.read_append_separator`).  Of the information separators the unit
  separator alone is no line boundary (`Integer.isMargin_iff`).
-/
import TexMark.Proofs.Lines
import TexMark.Settings.File
import TexMark.Text.Integer

namespace TexMark

open SettingsFile (isQuote)

/-! ### Blanks in front -/

namespace Text

/-- Of a text that ends in a core nothing is trimmed but in front of the core. -/
theorem trim_append {p : Char → Bool} {core : Text} (hne : core ≠ [])
    (hfirst : ∀ c ∈ core.head?, ¬ p c) (hlast : ∀ c ∈ core.getLast?, ¬ p c) (u : Text) :
    trim p (u ++ core) = u.dropWhile p ++ core := by
  have hdrop : (u ++ core).dropWhile p = u.dropWhile p ++ core := by
    obtain ⟨c, core, rfl⟩ := List.exists_cons_of_ne_nil hne
    rw [List.dropWhile_append, List.dropWhile_cons_of_neg (hfirst c rfl)]
    split
    · rename_i hempty
      rw [List.isEmpty_iff.mp hempty, List.nil_append]
    · rfl
  have hkept : (u.dropWhile p ++ core).rdropWhile p = u.dropWhile p ++ core := by
    rw [List.rdropWhile_eq_self_iff]
    intro h
    rw [List.getLast_append_of_ne_nil h hne]
    exact hlast _ (List.getLast?_eq_getLast_of_ne_nil hne)
  exact (congrArg (List.rdropWhile p) hdrop).trans hkept

theorem stripEnd_eq_append {t : Text} (h : strip t ≠ []) :
    stripEnd t = t.takeWhile isBlank ++ strip t := by
  have hdrop : t.dropWhile isBlank ≠ [] := by
    intro hnil
    rw [strip_eq, hnil] at h
    exact h rfl
  obtain ⟨c, rest, hrest⟩ := List.exists_cons_of_ne_nil hdrop
  have hc : ¬ isBlank c := by
    have := List.head_dropWhile_not isBlank hdrop
    simpa [hrest] using this
  have hstrip : strip t = c :: stripEnd rest := by
    rw [strip_eq, hrest]
    exact stripEnd_append_cons [] hc rest
  conv_lhs => rw [← List.takeWhile_append_dropWhile (p := isBlank) (l := t), hrest]
  rw [stripEnd_append_cons _ hc, hstrip]

theorem stripEnd_ne_nil {t : Text} (h : strip t ≠ []) : stripEnd t ≠ [] := by
  rw [stripEnd_eq_append h]
  exact List.append_ne_nil_of_right_ne_nil _ h

theorem strip_stripEnd (t : Text) : strip (stripEnd t) = strip t := by
  obtain ⟨v, ht, hv⟩ := exists_stripEnd t
  conv_rhs => rw [ht, strip_append_blank hv]

theorem not_isBlank_of_isQuote {c : Char} (h : isQuote c) : ¬ isBlank c := by
  simp only [isQuote, Bool.or_eq_true, beq_iff_eq] at h
  rcases h with rfl | rfl <;> decide

/-- A value without quotes comes back from its line with no blanks at its end. -/
theorem trim_isQuote_stripEnd {t : Text} (hne : strip t ≠ []) (h : ∀ c ∈ strip t, ¬ isQuote c) :
    trim isQuote (stripEnd t) = stripEnd t := by
  have hfront : ∀ c ∈ t.takeWhile isBlank, ¬ isQuote c := fun c hc hquote =>
    not_isBlank_of_isQuote hquote (List.mem_takeWhile_imp hc)
  have hkept : (t.takeWhile isBlank).dropWhile isQuote = t.takeWhile isBlank := by
    cases hfirst : t.takeWhile isBlank with
    | nil => rfl
    | cons c rest =>
      exact List.dropWhile_cons_of_neg (hfront c (hfirst ▸ List.mem_cons_self))
  rw [stripEnd_eq_append hne, trim_append hne (fun c hc => h c (List.mem_of_head? hc))
    (fun c hc => h c (List.mem_of_getLast? hc)), hkept]

end Text

open Text (isBlank strip stripEnd)

/-! ### Numerals -/

namespace Integer

theorem isBlank_of_isMargin {c : Char} (h : isMargin c) : isBlank c :=
  (Bool.and_eq_true_iff.mp h).1

/-- Of the blanks that begin no line the unit separator alone is no margin. -/
theorem isMargin_iff {c : Char} (hblank : isBlank c) (hline : Text.isLineBoundary c = false) :
    isMargin c ↔ c ≠ '\x1f' := by
  have hchar : c = '\x1f' ↔ c.toNat = 31 := by
    rw [← Char.toNat_inj]
    rfl
  simp only [Text.isLineBoundary, Bool.or_eq_false_iff, Bool.and_eq_false_iff,
    decide_eq_false_iff_not] at hline
  rw [isMargin, hblank, Bool.true_and, Ne, hchar, Bool.not_eq_true', Bool.and_eq_false_iff]
  simp only [decide_eq_false_iff_not]
  omega

/-- A numeral is read if its digits, not too many, go to its end. -/
theorem read_eq_ok_iff {source : Text} {n : Int} : read source = .ok n ↔
    ∃ ds, digits? false (sign (Text.trim isMargin source)).2 = some (ds, []) ∧
      ds.length ≤ maxDigits ∧
      (if (sign (Text.trim isMargin source)).1 then -(ofDigits ds : Int) else ofDigits ds) = n := by
  unfold read
  dsimp only
  cases digits? false (sign (Text.trim isMargin source)).2 with
  | none => simp
  | some r =>
    obtain ⟨ds, rest⟩ := r
    dsimp only
    split
    · rename_i hlong
      simp only [reduceCtorEq, false_iff]
      rintro ⟨ds', heq, hshort, -⟩
      cases heq
      omega
    · rename_i hshort
      cases rest with
      | cons c rest => simp
      | nil =>
        rw [Nat.not_lt] at hshort
        simp only [List.isEmpty_nil, Bool.not_true, Bool.false_eq_true, if_false, ← apply_ite,
          Except.ok.injEq]
        constructor
        · exact fun h => ⟨ds, rfl, hshort, h⟩
        · rintro ⟨ds', heq, -, h⟩
          cases heq
          exact h

theorem mem_of_digits? {afterDigit : Bool} {t : Text} {ds : List Nat}
    (h : digits? afterDigit t = some (ds, [])) :
    ∀ c ∈ t, c = '_' ∨ (Text.decimalValue? c).isSome := by
  induction t generalizing afterDigit ds with
  | nil => exact nofun
  | cons c t ih =>
    rw [digits?] at h
    split at h
    · rename_i hscore
      split at h
      · exact List.forall_mem_cons.mpr ⟨.inl (beq_iff_eq.mp hscore), ih h⟩
      · cases h
    · split at h
      · rename_i d hd
        obtain ⟨⟨ds', rest⟩, hr, heq⟩ := Option.map_eq_some_iff.mp h
        cases heq
        exact List.forall_mem_cons.mpr ⟨.inr (by rw [hd]; rfl), ih hr⟩
      · split at h
        · cases h
        · cases h

theorem not_isQuote_of_read {source : Text} {n : Int} (h : read source = .ok n)
    (htrim : Text.trim isMargin source = source) : ∀ c ∈ source, ¬ isQuote c := by
  obtain ⟨ds, hdigits, -⟩ := read_eq_ok_iff.mp h
  rw [htrim] at hdigits
  have hnumeral : ∀ c ∈ (sign source).2, ¬ isQuote c := by
    intro c hc hquote
    simp only [isQuote, Bool.or_eq_true, beq_iff_eq] at hquote
    have hdigit := mem_of_digits? hdigits c hc
    revert hdigit
    rcases hquote with rfl | rfl <;> decide
  unfold sign at hnumeral
  split at hnumeral
  · exact List.forall_mem_cons.mpr ⟨by decide, hnumeral⟩
  · exact List.forall_mem_cons.mpr ⟨by decide, hnumeral⟩
  · exact hnumeral

/-- No digit is an information separator. -/
theorem decimalValue?_eq_none {c : Char} (h : c.toNat < 48) : Text.decimalValue? c = none := by
  have hzeros : ∀ z ∈ Text.decimalZeros, 48 ≤ z := by decide
  rw [Text.decimalValue?, Option.map_eq_none_iff, List.find?_eq_none]
  intro z hz
  have := hzeros z hz
  simp only [Bool.and_eq_true, decide_eq_true_eq]
  omega

section Behind

variable {core u : Text} {n : Int}

theorem ne_nil_of_read (h : read core = .ok n) : core ≠ [] := by
  rintro rfl
  cases h

theorem trim_append_core (hcore : strip core = core) (hread : read core = .ok n) :
    Text.trim isMargin (u ++ core) = u.dropWhile isMargin ++ core := by
  refine Text.trim_append (ne_nil_of_read hread) (fun c hc hmargin => ?_) (fun c hc hmargin => ?_) u
  · exact Text.head?_strip (hcore.symm ▸ hc) (isBlank_of_isMargin hmargin)
  · exact Text.getLast?_strip (hcore.symm ▸ hc) (isBlank_of_isMargin hmargin)

/-- Behind margins a numeral is read as it is without them. -/
theorem read_append_margin (hcore : strip core = core) (hread : read core = .ok n)
    (hu : ∀ c ∈ u, isMargin c) : read (u ++ core) = .ok n := by
  have hown : Text.trim isMargin core = core := trim_append_core (u := []) hcore hread
  have hbehind : Text.trim isMargin (u ++ core) = core := by
    rw [trim_append_core hcore hread, List.dropWhile_eq_nil_iff.mpr hu, List.nil_append]
  rw [read_eq_ok_iff, hown] at hread
  rw [read_eq_ok_iff, hbehind]
  exact hread

/-- Behind an information separator no numeral is read. -/
theorem read_append_separator (hcore : strip core = core) (hread : read core = .ok n)
    (hblank : ∀ c ∈ u, isBlank c) (hu : ¬ ∀ c ∈ u, isMargin c) :
    ∀ m, read (u ++ core) ≠ .ok m := by
  have hrest : u.dropWhile isMargin ≠ [] := fun hnil => hu (List.dropWhile_eq_nil_iff.mp hnil)
  obtain ⟨c, rest, heq⟩ := List.exists_cons_of_ne_nil hrest
  have hc : ¬ isMargin c := by
    have := List.head_dropWhile_not isMargin hrest
    simpa [heq] using this
  -- what stands in front of the numeral is no sign, no digit and no underscore
  have hseparator : 28 ≤ c.toNat ∧ c.toNat ≤ 31 := by
    have hmem : c ∈ u := (List.dropWhile_sublist isMargin).subset (heq ▸ List.mem_cons_self)
    rw [isMargin, hblank c hmem] at hc
    simpa using hc
  have hsign : sign (c :: (rest ++ core)) = (false, c :: (rest ++ core)) := by
    unfold sign
    split
    · rename_i h
      cases h
      exact absurd hseparator (by decide)
    · rename_i h
      cases h
      exact absurd hseparator (by decide)
    · rfl
  have hscore : (c == '_') = false := by
    rw [beq_eq_false_iff_ne]
    rintro rfl
    exact absurd hseparator (by decide)
  intro m h
  obtain ⟨ds, hdigits, -⟩ := read_eq_ok_iff.mp h
  rw [trim_append_core hcore hread, heq, List.cons_append, hsign, digits?, hscore,
    decimalValue?_eq_none (by omega)] at hdigits
  cases hdigits

end Behind

end Integer

end TexMark
