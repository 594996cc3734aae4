/-
  TexMark/Proofs/Markup/Lexemes.lean
  ==================================
  **What TeX reads.**  A text is read as control words, each with all the letters behind its
  backslash, control symbols and single characters.  Reading loses nothing (`spell_lexemes`), and
  it gives back what has been spelled unless a control word stands directly in front of a letter
  (`lexemes_spell`).
-/
import TexMark.Proofs.Scans

namespace TexMark.Markup

open Text (isAsciiLetter)

/-- What a text is read as. -/
inductive Lexeme where
  | word (name : Text)
  | symbol (c : Char)
  | char (c : Char)
deriving DecidableEq, Repr

def Lexeme.spelled : Lexeme → Text
  | .word w => '\\' :: w
  | .symbol c => ['\\', c]
  | .char c => [c]

theorem Lexeme.length_spelled_pos (l : Lexeme) : 0 < l.spelled.length := by
  cases l <;> exact Nat.succ_pos _

def Lexeme.isWord : Lexeme → Bool
  | .word _ => true
  | _ => false

def Lexeme.isBlank : Lexeme → Bool
  | .char c => Text.isBlank c
  | _ => false

/-- The lexemes that are no blanks. -/
def unblanked (ls : List Lexeme) : List Lexeme := ls.filter (!Lexeme.isBlank ·)

theorem unblanked_append (us ls : List Lexeme) :
    unblanked (us ++ ls) = unblanked us ++ unblanked ls := List.filter_append ..

theorem unblanked_blanks {us : List Lexeme} (hus : ∀ u ∈ us, u.isBlank) : unblanked us = [] := by
  rw [unblanked, List.filter_eq_nil_iff]
  exact fun u hu => by simp [hus u hu]

theorem head?_unblanked (ls : List Lexeme) :
    (unblanked ls).head? = (ls.dropWhile Lexeme.isBlank).head? := by
  rw [unblanked, List.head?_filter, List.find?_eq_head?_dropWhile_not]
  simp

/-! ### Spelling -/

def spell (ls : List Lexeme) : Text := ls.flatMap Lexeme.spelled

@[simp] theorem spell_nil : spell [] = [] := rfl

@[simp] theorem spell_cons (l : Lexeme) (ls : List Lexeme) :
    spell (l :: ls) = l.spelled ++ spell ls := List.flatMap_cons

@[simp] theorem spell_append (ls ms : List Lexeme) : spell (ls ++ ms) = spell ls ++ spell ms :=
  List.flatMap_append

/-! ### Reading -/

/-- Reads on; a name is that of the command that has been begun. -/
def lexemesFrom : Option Text → Text → List Lexeme
  | none, [] => []
  | none, c :: t => if c = '\\' then lexemesFrom (some []) t else .char c :: lexemesFrom none t
  | some w, [] => [if w = [] then .char '\\' else .word w]
  | some w, c :: t =>
    if isAsciiLetter c then lexemesFrom (some (w ++ [c])) t
    else if w = [] then .symbol c :: lexemesFrom none t
    else .word w :: if c = '\\' then lexemesFrom (some []) t else .char c :: lexemesFrom none t

/-- The control words, control symbols and characters of a text.  A lone backslash at the end
    counts as a character. -/
def lexemes (t : Text) : List Lexeme := lexemesFrom none t

/-- The lexemes of a text that are no blanks. -/
def tokens (t : Text) : List Lexeme := unblanked (lexemes t)

variable {w v t : Text} {ls : List Lexeme}

theorem lexemesFrom_append (hv : ∀ c ∈ v, isAsciiLetter c) (w t : Text) :
    lexemesFrom (some w) (v ++ t) = lexemesFrom (some (w ++ v)) t := by
  induction v generalizing w with
  | nil => rw [List.append_nil, List.nil_append]
  | cons c v ih =>
    obtain ⟨hc, hv⟩ := List.forall_mem_cons.mp hv
    rw [List.cons_append, lexemesFrom, if_pos hc, ih hv, List.append_assoc, List.singleton_append]

theorem lexemesFrom_of_head (hw : w ≠ []) (ht : ∀ c ∈ t.head?, ¬ isAsciiLetter c) :
    lexemesFrom (some w) t = .word w :: lexemesFrom none t := by
  cases t with
  | nil => simp only [lexemesFrom, if_neg hw]
  | cons c t => simp only [lexemesFrom, if_neg (ht c rfl), if_neg hw]

/-- **Reading loses nothing.** -/
theorem spell_lexemesFrom (name : Option Text) (t : Text) :
    spell (lexemesFrom name t) = name.elim [] ('\\' :: ·) ++ t := by
  fun_induction lexemesFrom name t with
  | case1 => rfl
  | case2 t ih => simp [ih]
  | case3 c t hc ih => simp [ih, Lexeme.spelled]
  | case4 w => by_cases hw : w = [] <;> simp [hw, Lexeme.spelled]
  | case5 w c t hc ih => simp [ih]
  | case6 c t hc ih => simp [ih, Lexeme.spelled]
  | case7 w c t hc hw ih ih' => by_cases hc' : c = '\\' <;> simp [hc', ih, ih', Lexeme.spelled]

theorem spell_lexemes (t : Text) : spell (lexemes t) = t := spell_lexemesFrom none t

/-! ### Lists that can be read back -/

theorem isAsciiLetter_of_isBlank {c : Char} (h : Text.isBlank c) : isAsciiLetter c = false := by
  rw [Bool.eq_false_iff]
  intro hletter
  have hrange : (65 ≤ c.toNat ∧ c.toNat ≤ 90) ∨ (97 ≤ c.toNat ∧ c.toNat ≤ 122) := by
    rcases Bool.or_eq_true_iff.mp hletter with hupper | hlower
    · obtain ⟨hle, hle'⟩ := of_decide_eq_true hupper
      exact .inl ⟨UInt32.le_iff_toNat_le.mp hle, UInt32.le_iff_toNat_le.mp hle'⟩
    · obtain ⟨hle, hle'⟩ := Bool.and_eq_true_iff.mp hlower
      exact .inr ⟨UInt32.le_iff_toNat_le.mp (of_decide_eq_true hle),
        UInt32.le_iff_toNat_le.mp (of_decide_eq_true hle')⟩
  simp only [Text.isBlank, Bool.or_eq_true, Bool.and_eq_true, decide_eq_true_eq,
    beq_iff_eq] at h
  omega

/-- Is the first lexeme a letter? -/
def letterFirst : List Lexeme → Bool
  | .char c :: _ => isAsciiLetter c
  | _ => false

/-- A lexeme has the form in which it is read in front of others. -/
def Lexeme.Formed (ls : List Lexeme) : Lexeme → Prop
  | .word w => w ≠ [] ∧ ∀ c ∈ w, isAsciiLetter c
  | .symbol c => ¬ isAsciiLetter c
  | .char c => c = '\\' → ls = []

def Formed : List Lexeme → Prop
  | [] => True
  | l :: ls => l.Formed ls ∧ Formed ls

/-- Nowhere stands a lexeme of a class directly in front of a letter. -/
def Parted (p : Lexeme → Bool) : List Lexeme → Prop
  | [] => True
  | l :: ls => (p l = true → letterFirst ls = false) ∧ Parted p ls

instance decidableParted (p : Lexeme → Bool) : (ls : List Lexeme) → Decidable (Parted p ls)
  | [] => isTrue trivial
  | l :: ls =>
    have := decidableParted p ls
    inferInstanceAs (Decidable ((p l = true → letterFirst ls = false) ∧ Parted p ls))

theorem Parted.mono {p q : Lexeme → Bool} (hpq : ∀ l, q l = true → p l = true)
    (h : Parted p ls) : Parted q ls := by
  induction ls with
  | nil => trivial
  | cons l ls ih => exact ⟨fun hl => h.1 (hpq l hl), ih h.2⟩

theorem Parted.or {p q : Lexeme → Bool} (h : Parted p ls) (h' : Parted q ls) :
    Parted (fun l => p l || q l) ls := by
  induction ls with
  | nil => trivial
  | cons l ls ih =>
    exact ⟨fun hl => (Bool.or_eq_true_iff.mp hl).elim h.1 h'.1, ih h.2 h'.2⟩

theorem Parted.drop {p : Lexeme → Bool} (h : Parted p ls) (k : Nat) : Parted p (ls.drop k) := by
  induction ls generalizing k with
  | nil => rwa [List.drop_nil]
  | cons l ls ih =>
    cases k with
    | zero => exact h
    | succ k => exact ih h.2 k

theorem Parted.of_append {p : Lexeme → Bool} {us : List Lexeme} (h : Parted p (us ++ ls)) :
    Parted p ls := by
  have hrest := h.drop us.length
  rwa [List.drop_left] at hrest

/-- Nowhere stands a control word directly in front of a letter, which would be **glued** to it. -/
def Unglued (ls : List Lexeme) : Prop := Parted Lexeme.isWord ls

instance decidableUnglued (ls : List Lexeme) : Decidable (Unglued ls) := decidableParted _ ls

theorem letterFirst_of_blank {l : Lexeme} (h : l.isBlank) (ls : List Lexeme) :
    letterFirst (l :: ls) = false := by
  cases l with
  | word w => cases h
  | symbol c => cases h
  | char c => exact isAsciiLetter_of_isBlank h

theorem Formed.drop (h : Formed ls) (k : Nat) : Formed (ls.drop k) := by
  induction ls generalizing k with
  | nil => rwa [List.drop_nil]
  | cons l ls ih =>
    cases k with
    | zero => exact h
    | succ k => exact ih h.2 k

theorem Formed.of_append {us : List Lexeme} (h : Formed (us ++ ls)) : Formed ls := by
  have hrest := h.drop us.length
  rwa [List.drop_left] at hrest

theorem letterFirst_of_head {c : Char} (hc : c ∈ (spell ls).head?) (hletter : isAsciiLetter c) :
    letterFirst ls = true := by
  have hbackslash : isAsciiLetter '\\' = false := by decide
  cases ls with
  | nil => cases hc
  | cons l ls =>
    cases l with
    | word w =>
      cases hc
      rw [hbackslash] at hletter
      cases hletter
    | symbol d =>
      cases hc
      rw [hbackslash] at hletter
      cases hletter
    | char d =>
      cases hc
      exact hletter

/-- **What is spelled is read back** if nothing is glued. -/
theorem lexemes_spell (hformed : Formed ls) (hglued : Unglued ls) : lexemes (spell ls) = ls := by
  unfold lexemes
  induction ls with
  | nil => rfl
  | cons l ls ih =>
    obtain ⟨hl, hformed⟩ := hformed
    have hrest := ih hformed hglued.2
    rw [spell_cons]
    cases l with
    | word w =>
      have hhead : ∀ c ∈ (spell ls).head?, ¬ isAsciiLetter c := by
        intro c hc hletter
        have hfirst := letterFirst_of_head hc hletter
        rw [hglued.1 rfl] at hfirst
        cases hfirst
      rw [Lexeme.spelled, List.cons_append, lexemesFrom, if_pos rfl, lexemesFrom_append hl.2,
        List.nil_append, lexemesFrom_of_head hl.1 hhead, hrest]
    | symbol c =>
      have hletter : ¬ isAsciiLetter c = true := hl
      simp [Lexeme.spelled, lexemesFrom, hletter, hrest]
    | char c =>
      by_cases hc : c = '\\'
      · rw [hl hc, hc]
        rfl
      · simp [Lexeme.spelled, lexemesFrom, hc, hrest]

theorem formed_lexemesFrom {name : Option Text} (hname : ∀ w ∈ name, ∀ c ∈ w, isAsciiLetter c)
    (t : Text) : Formed (lexemesFrom name t) := by
  fun_induction lexemesFrom name t with
  | case1 => trivial
  | case2 t ih => exact ih (by simp)
  | case3 c t hc ih => exact ⟨fun h => absurd h hc, ih nofun⟩
  | case4 w =>
    split
    · exact ⟨fun _ => rfl, trivial⟩
    · rename_i hw
      exact ⟨⟨hw, hname w rfl⟩, trivial⟩
  | case5 w c t hc ih =>
    refine ih ?_
    rintro _ ⟨⟩
    exact List.forall_mem_append.mpr ⟨hname w rfl, List.forall_mem_singleton.mpr hc⟩
  | case6 c t hc ih => exact ⟨hc, ih nofun⟩
  | case7 w c t hc hw ih ih' =>
    refine ⟨⟨hw, hname w rfl⟩, ?_⟩
    split
    · exact ih (by simp)
    · rename_i hc'
      exact ⟨fun h => absurd h hc', ih' nofun⟩

theorem formed_lexemes (t : Text) : Formed (lexemes t) := formed_lexemesFrom (by simp) t

theorem letterFirst_lexemesFrom (w t : Text) : letterFirst (lexemesFrom (some w) t) = false := by
  induction t generalizing w with
  | nil =>
    rw [lexemesFrom]
    split <;> rfl
  | cons c t ih =>
    rw [lexemesFrom]
    split
    · exact ih _
    · split <;> rfl

theorem unglued_lexemesFrom (name : Option Text) (t : Text) : Unglued (lexemesFrom name t) := by
  fun_induction lexemesFrom name t with
  | case1 => trivial
  | case2 t ih => exact ih
  | case3 c t hc ih => exact ⟨nofun, ih⟩
  | case4 w => split <;> exact ⟨fun _ => rfl, trivial⟩
  | case5 w c t hc ih => exact ih
  | case6 c t hc ih => exact ⟨nofun, ih⟩
  | case7 w c t hc hw ih ih' =>
    split
    · exact ⟨fun _ => letterFirst_lexemesFrom [] t, ih⟩
    · exact ⟨fun _ => Bool.eq_false_iff.mpr hc, nofun, ih'⟩

theorem unglued_lexemes (t : Text) : Unglued (lexemes t) := unglued_lexemesFrom none t

/-! ### Readers of words and blanks -/

/-- The first lexeme that is no blank, with the blanks in front of it. -/
theorem split_blanks {d : Lexeme} {rest : List Lexeme}
    (h : ls.dropWhile Lexeme.isBlank = d :: rest) :
    ls = ls.takeWhile Lexeme.isBlank ++ d :: rest ∧
      (∀ b ∈ ls.takeWhile Lexeme.isBlank, b.isBlank) ∧ d.isBlank = false := by
  have hhead := List.head_dropWhile_not Lexeme.isBlank (l := ls) (by simp [h])
  refine ⟨?_, fun b hb => List.mem_takeWhile_imp hb, ?_⟩
  · rw [← h, List.takeWhile_append_dropWhile]
  · simpa [h] using hhead

theorem skipBlanks_spell (ls : List Lexeme) :
    Text.skipBlanks (spell ls) = spell (ls.dropWhile Lexeme.isBlank) := by
  have hbackslash : Text.isBlank '\\' = false := by decide
  induction ls with
  | nil => rfl
  | cons l ls ih =>
    cases l with
    | word w => simp [Text.skipBlanks, Lexeme.spelled, Lexeme.isBlank, hbackslash]
    | symbol c => simp [Text.skipBlanks, Lexeme.spelled, Lexeme.isBlank, hbackslash]
    | char c =>
      rw [Text.skipBlanks] at ih
      cases hc : Text.isBlank c <;>
        simp [Text.skipBlanks, Lexeme.spelled, Lexeme.isBlank, hc, ih]

theorem nameEnds_spell (h : letterFirst ls = false) : nameEnds (spell ls) = true := by
  cases ls with
  | nil => rfl
  | cons l ls =>
    cases l with
    | word w => rfl
    | symbol c => rfl
    | char c => simpa [nameEnds, Lexeme.spelled, letterFirst] using h

/-- A name ends where its letters do. -/
theorem name_unique {s : Text} (hv : ∀ c ∈ v, isAsciiLetter c) (hw : ∀ c ∈ w, isAsciiLetter c)
    (hs : nameEnds s) (ht : nameEnds t) (heq : v ++ s = w ++ t) : v = w ∧ s = t := by
  have hname : v = w := by
    rw [← takeWhile_of_nameEnds hv hs, heq, takeWhile_of_nameEnds hw ht]
  subst hname
  exact ⟨rfl, List.append_cancel_left heq⟩

theorem word?_eq_some_iff {name : Text} :
    word? name w = some t ↔ w = '\\' :: (name ++ t) ∧ nameEnds t = true := by
  rw [word?, Option.filter_eq_some_iff, command?, Text.dropPrefix?_eq_some_iff]
  rfl

/-- **A word is read** if it is the one that is looked for. -/
theorem word?_eq {name : Text} (hname : ∀ c ∈ name, isAsciiLetter c)
    (hw : ∀ c ∈ w, isAsciiLetter c) (ht : nameEnds t) :
    word? name ('\\' :: (w ++ t)) = if w = name then some t else none := by
  split
  · rename_i heq
    exact word?_eq_some_iff.mpr ⟨by rw [heq], ht⟩
  · rename_i hne
    cases h : word? name ('\\' :: (w ++ t)) with
    | none => rfl
    | some rest =>
      obtain ⟨heq, hrest⟩ := word?_eq_some_iff.mp h
      exact absurd (name_unique hw hname ht hrest (List.cons.inj heq).2).1 hne

end TexMark.Markup
