/-
  TexMark/Proofs/Rows/Spacing.lean
  ================================
  **Spacing arguments.**  What is read at the head of a row as its spacing argument is written as
  one, and it is read whatever the row goes on with (`spacing?_eq_some_iff`).  No character of it
  counts for the division into rows.
-/
import TexMark.Proofs.Rows.Pieces

namespace TexMark.Rows

open Text (isBlank skipBlanks isAsciiLower)

variable {r s t u rest : Text}

/-- A spacing argument as it is written. -/
inductive IsSpacing : Text → Prop where
  | intro {before sign number between after : Text} {a b : Char} (hbefore : ∀ c ∈ before, isBlank c)
    (hsign : sign = [] ∨ sign = ['-']) (hnumber : ∀ c ∈ number, isLengthDigit c)
    (hne : number ≠ []) (hbetween : ∀ c ∈ between, isBlank c) (ha : isAsciiLower a)
    (hb : isAsciiLower b) (hafter : ∀ c ∈ after, isBlank c) :
    IsSpacing ('[' :: (before ++ (sign ++ (number ++ (between ++ a :: b :: (after ++ [']']))))))

theorem isBlank_eq_false (among : Char → Bool)
    (hamong : ∀ n ∈ blankCodes, among (Char.ofNat n) = false) {c : Char} (hc : among c) :
    isBlank c = false := by
  by_contra h
  rw [Bool.not_eq_false] at h
  rw [eq_false_of_isBlank among hamong h] at hc
  cases hc

theorem isLengthDigit_eq_false {c : Char} (hc : isAsciiLower c) : isLengthDigit c = false := by
  have hrange : 97 ≤ c.toNat ∧ c.toNat ≤ 122 := by
    simpa [isAsciiLower, Char.le_def, UInt32.le_iff_toNat_le] using hc
  have hall : ∀ n ∈ List.range' 97 26, isLengthDigit (Char.ofNat n) = false := by decide +kernel
  rw [← Char.ofNat_toNat c]
  exact hall c.toNat (List.mem_range'_1.mpr (by omega))

theorem dropWhile_append_cons {p : Char → Bool} (hu : ∀ c ∈ u, p c) {c : Char} (hc : p c = false)
    (t : Text) : (u ++ c :: t).dropWhile p = c :: t := by
  rw [List.dropWhile_append_of_pos hu, List.dropWhile_cons_of_neg (by simp [hc])]

/-- Behind a number and blanks stands the unit. -/
theorem skipBlanks_dropWhile {number between : Text} {a : Char}
    (hnumber : ∀ c ∈ number, isLengthDigit c) (hbetween : ∀ c ∈ between, isBlank c)
    (ha : isAsciiLower a) (t : Text) :
    skipBlanks ((number ++ (between ++ a :: t)).dropWhile isLengthDigit) = a :: t := by
  have hstop : (between ++ a :: t).dropWhile isLengthDigit = between ++ a :: t := by
    cases between with
    | nil => exact List.dropWhile_cons_of_neg (by simp [isLengthDigit_eq_false ha])
    | cons c between =>
      rw [List.forall_mem_cons] at hbetween
      have hc : isLengthDigit c = false :=
        eq_false_of_isBlank isLengthDigit (by decide +kernel) hbetween.1
      exact List.dropWhile_cons_of_neg (by simp [hc])
  rw [List.dropWhile_append_of_pos hnumber, hstop]
  exact dropWhile_append_cons hbetween (isBlank_eq_false isAsciiLower (by decide) ha) t

/-- The number of a spacing argument, without its minus. -/
def unsigned (t : Text) : Text := if t.head? = some '-' then t.drop 1 else t

theorem exists_sign (t : Text) : ∃ sign, (sign = [] ∨ sign = ['-']) ∧ t = sign ++ unsigned t := by
  rw [unsigned]
  split
  · rename_i hhead
    exact ⟨['-'], .inr rfl, by simpa using List.eq_cons_of_mem_head? hhead⟩
  · exact ⟨[], .inl rfl, rfl⟩

theorem unsigned_append {sign : Text} (hsign : sign = [] ∨ sign = ['-']) {c : Char} (hc : c ≠ '-')
    (t : Text) : unsigned (sign ++ c :: t) = c :: t := by
  rcases hsign with rfl | rfl
  · exact if_neg (by simpa using hc)
  · rfl

theorem isSpacing_of_spacing? (h : spacing? r = some (s, rest)) : IsSpacing s ∧ r = s ++ rest := by
  unfold spacing? at h
  split at h
  · rename_i t
    obtain ⟨sign, hsign, hsigned⟩ := exists_sign (skipBlanks t)
    rw [unsigned] at hsigned
    simp only at h
    generalize hnumber : (if (skipBlanks t).head? = some '-' then (skipBlanks t).drop 1
      else skipBlanks t) = number at h hsigned
    simp only [Option.ite_none_left_eq_some] at h
    obtain ⟨hne, h⟩ := h
    split at h
    · rename_i a b more hunit
      simp only [Option.ite_none_right_eq_some, Bool.and_eq_true] at h
      obtain ⟨⟨ha, hb⟩, h⟩ := h
      split at h
      · rename_i after hclose
        rw [Option.some.injEq, Prod.mk.injEq] at h
        obtain ⟨hs, rfl⟩ := h
        -- each search has passed a run of characters, and these make up the argument
        have hmore : more.takeWhile isBlank ++ ']' :: after = more := by
          rw [← hclose]
          exact List.takeWhile_append_dropWhile
        have hbehind : (number.dropWhile isLengthDigit).takeWhile isBlank ++ a :: b :: more =
            number.dropWhile isLengthDigit := by
          rw [← hunit]
          exact List.takeWhile_append_dropWhile
        have hbefore : t.takeWhile isBlank ++ skipBlanks t = t := List.takeWhile_append_dropWhile
        have ht : '[' :: t = '[' :: (t.takeWhile isBlank ++ (sign ++
            (number.takeWhile isLengthDigit ++ ((number.dropWhile isLengthDigit).takeWhile isBlank
              ++ a :: b :: (more.takeWhile isBlank ++ [']']))))) ++ after := by
          simp only [List.cons_append, List.append_assoc, List.nil_append]
          rw [hmore, hbehind, List.takeWhile_append_dropWhile, ← hsigned, hbefore]
        have hpassed (among : Char → Bool) (u : Text) : ∀ c ∈ u.takeWhile among, among c :=
          fun c hc => List.mem_takeWhile_imp hc
        have hdigit : number.takeWhile isLengthDigit ≠ [] := by
          intro hnil
          rw [hnil] at hne
          exact hne rfl
        rw [ht, List.length_append, Nat.add_sub_cancel, List.take_left] at hs
        rw [← hs]
        refine ⟨.intro ?_ hsign ?_ hdigit ?_ ha hb ?_, ht⟩
        · exact hpassed isBlank t
        · exact hpassed isLengthDigit number
        · exact hpassed isBlank _
        · exact hpassed isBlank more
      · cases h
    · cases h
  · cases h

theorem spacing?_append (h : IsSpacing s) (rest : Text) :
    spacing? (s ++ rest) = some (s, rest) := by
  have htake : (s ++ rest).take ((s ++ rest).length - rest.length) = s := by
    rw [List.length_append, Nat.add_sub_cancel, List.take_left]
  cases h with
  | @intro before sign number between after a b hbefore hsign hnumber hne hbetween ha hb hafter =>
    obtain ⟨d, number, rfl⟩ := List.exists_cons_of_ne_nil hne
    have hd : isLengthDigit d = true := hnumber d List.mem_cons_self
    have hminus : d ≠ '-' := by
      rintro rfl
      exact absurd hd (by decide)
    have hsigned (t : Text) : skipBlanks (before ++ (sign ++ d :: t)) = sign ++ d :: t := by
      have hd := isBlank_eq_false isLengthDigit (by decide +kernel) hd
      rcases hsign with rfl | rfl
      · exact dropWhile_append_cons hbefore hd t
      · exact dropWhile_append_cons hbefore rfl (d :: t)
    have hunsigned (t : Text) := unsigned_append hsign hminus t
    have hunit := skipBlanks_dropWhile hnumber hbetween ha (b :: (after ++ ']' :: rest))
    have hclose : skipBlanks (after ++ ']' :: rest) = ']' :: rest :=
      dropWhile_append_cons hafter rfl rest
    simp only [unsigned, List.cons_append] at hunsigned hunit
    simp only [List.cons_append, List.append_assoc, List.nil_append] at htake ⊢
    simp only [spacing?, hsigned, hunsigned, hunit, hclose, ha, hb, List.takeWhile_cons_of_pos hd,
      List.isEmpty_cons, Bool.false_eq_true, if_false, Bool.and_self, if_true, htake]

/-- **Spacing arguments.**  What is read at the head of a row is a spacing argument, and it is read
    whatever follows it. -/
theorem spacing?_eq_some_iff : spacing? r = some (s, rest) ↔ IsSpacing s ∧ r = s ++ rest := by
  constructor
  · exact isSpacing_of_spacing?
  · rintro ⟨h, rfl⟩
    exact spacing?_append h rest

namespace IsSpacing

theorem isPlain (h : IsSpacing s) : ∀ c ∈ s, IsPlain c := by
  cases h with
  | @intro before sign number between after a b hbefore hsign hnumber hne hbetween ha hb hafter =>
    have hblank {u : Text} (hu : ∀ c ∈ u, isBlank c) : ∀ c ∈ u, IsPlain c :=
      fun c hc => isPlain_of_isBlank (hu c hc)
    have hsign' : ∀ c ∈ sign, IsPlain c := by
      rcases hsign with rfl | rfl <;> simp [IsPlain]
    have hdigit : ∀ c ∈ number, IsPlain c :=
      fun c hc => isPlain_of isLengthDigit (by decide) (hnumber c hc)
    have hlower {c : Char} (hc : isAsciiLower c) : IsPlain c :=
      isPlain_of isAsciiLower (by decide) hc
    simp only [List.forall_mem_cons, List.forall_mem_append]
    exact ⟨by decide, hblank hbefore, hsign', hdigit, hblank hbetween, hlower ha, hlower hb,
      hblank hafter, by simp [IsPlain]⟩

/-- A spacing argument stands between brackets. -/
theorem exists_eq (h : IsSpacing s) : ∃ inner, s = '[' :: (inner ++ [']']) := by
  cases h with
  | @intro before sign number between after a b =>
    exact ⟨before ++ (sign ++ (number ++ (between ++ a :: b :: after))), by simp⟩

end IsSpacing

end TexMark.Rows
