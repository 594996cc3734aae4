/-
  TexMark/Proofs/Sizing/Reductions.lean
  =====================================
  **Commands that are taken back.**  Sizing commands and the command for prose are replaced in
  front of certain lexemes.  Such a pass works on the characters of a text, and what it does to
  the lexemes is a `Reduction`: the command goes with the blanks behind it, and with a dot if one
  is what it stands in front of.

    * `replace_spell` — the pass over a text does what the reduction does to its lexemes, if
      nothing is glued in the text and no line break stands in front of a name that is taken for
      a command;
    * `unglued_of_reduce` — what is glued stays glued;
    * `thinned_reduce` — what a reduction takes from the lexemes.
-/
import TexMark.Proofs.Markup.Lexemes

namespace TexMark.Markup

open Text (isAsciiLetter)

variable {ls : List Lexeme}

/-! ### Reductions -/

/-- Which commands are replaced, by their offset and name, and in front of what. -/
structure Reduction where
  command : Nat → Text → Bool
  follows : Lexeme → Bool
  written : List Lexeme
  follows_word : ∀ w, follows (.word w) = false
  follows_letter : ∀ c, isAsciiLetter c → follows (.char c) = false
  written_word : ∀ l ∈ written, ∃ w, l = .word w ∧ w ≠ [] ∧ ∀ c ∈ w, isAsciiLetter c

namespace Reduction

/-- How many lexemes behind a command go with it, if it is replaced: the blanks, and the dot of an
    invisible delimiter. -/
def reach? (r : Reduction) (pos : Nat) : Lexeme → List Lexeme → Option Nat
  | .word w, ls =>
    match ls.dropWhile Lexeme.isBlank with
    | [] => none
    | d :: _ =>
      if r.command pos w && r.follows d then
        some ((ls.takeWhile Lexeme.isBlank).length + if d = .char '.' then 1 else 0)
      else none
  | _, _ => none

/-- The lexemes with the commands replaced; `skip` of them go with the last command. -/
def reduceFrom (r : Reduction) (pos skip : Nat) : List Lexeme → List Lexeme
  | [] => []
  | l :: ls =>
    match skip with
    | skip + 1 => reduceFrom r (pos + l.spelled.length) skip ls
    | 0 =>
      match r.reach? pos l ls with
      | none => l :: reduceFrom r (pos + l.spelled.length) 0 ls
      | some k => r.written ++ reduceFrom r (pos + l.spelled.length) k ls

def reduce (r : Reduction) (ls : List Lexeme) : List Lexeme := r.reduceFrom 0 0 ls

variable {r : Reduction} {pos k : Nat} {l : Lexeme}

theorem reach?_eq_some_iff : r.reach? pos l ls = some k ↔
    ∃ w blanks d rest, l = .word w ∧ ls = blanks ++ d :: rest ∧ (∀ b ∈ blanks, b.isBlank) ∧
      d.isBlank = false ∧ r.command pos w = true ∧ r.follows d = true ∧
      k = blanks.length + if d = .char '.' then 1 else 0 := by
  constructor
  · intro h
    cases l with
    | symbol c => cases h
    | char c => cases h
    | word w =>
      rw [reach?] at h
      split at h
      · cases h
      · rename_i d rest hrest
        split at h
        · rename_i hacts
          cases h
          obtain ⟨hcommand, hfollows⟩ := Bool.and_eq_true_iff.mp hacts
          obtain ⟨hsplit, hblanks, hblank⟩ := split_blanks hrest
          exact ⟨w, _, d, rest, rfl, hsplit, hblanks, hblank, hcommand, hfollows, rfl⟩
        · cases h
  · rintro ⟨w, blanks, d, rest, rfl, rfl, hblanks, hblank, hcommand, hfollows, rfl⟩
    have htake : (blanks ++ d :: rest).takeWhile Lexeme.isBlank = blanks := by
      rw [List.takeWhile_append_of_pos hblanks, List.takeWhile_cons_of_neg (by simp [hblank]),
        List.append_nil]
    have hdrop : (blanks ++ d :: rest).dropWhile Lexeme.isBlank = d :: rest := by
      rw [List.dropWhile_append_of_pos hblanks, List.dropWhile_cons_of_neg (by simp [hblank])]
    simp [reach?, htake, hdrop, hcommand, hfollows]

/-- What goes with a command, and what is left behind it. -/
theorem exists_of_reach? (h : r.reach? pos l ls = some k) :
    ∃ w blanks dots rest, l = .word w ∧ r.command pos w = true ∧ ls = (blanks ++ dots) ++ rest ∧
      (blanks ++ dots).length = k ∧ (∀ b ∈ blanks, b.isBlank) ∧
      (dots = [] ∨ dots = [.char '.']) := by
  obtain ⟨w, blanks, d, rest, rfl, rfl, hblanks, -, hcommand, -, rfl⟩ := reach?_eq_some_iff.mp h
  by_cases hd : d = .char '.'
  · refine ⟨w, blanks, [.char '.'], rest, rfl, hcommand, by simp [hd], ?_, hblanks, .inr rfl⟩
    simp [hd]
  · refine ⟨w, blanks, [], d :: rest, rfl, hcommand, by simp, ?_, hblanks, .inl rfl⟩
    simp [hd]

theorem le_length_of_reach? (h : r.reach? pos l ls = some k) : k ≤ ls.length := by
  obtain ⟨w, blanks, dots, rest, -, -, rfl, rfl, -, -⟩ := exists_of_reach? h
  exact (List.prefix_append _ rest).length_le

theorem letterFirst_of_follows {d : Lexeme} (hd : r.follows d = true) (ls : List Lexeme) :
    letterFirst (d :: ls) = false := by
  cases d with
  | word w => rfl
  | symbol c => rfl
  | char c =>
    rw [letterFirst, Bool.eq_false_iff]
    intro hletter
    rw [r.follows_letter c hletter] at hd
    cases hd

/-- A command that is replaced is followed by no letter. -/
theorem letterFirst_of_reach? (h : r.reach? pos l ls = some k) : letterFirst ls = false := by
  obtain ⟨w, blanks, d, rest, -, rfl, hblanks, -, -, hfollows, -⟩ := reach?_eq_some_iff.mp h
  cases blanks with
  | nil => exact letterFirst_of_follows hfollows rest
  | cons b blanks => exact letterFirst_of_blank (hblanks b List.mem_cons_self) _

end Reduction

/-! ### Passes over a text -/

/-- The letters at the head. -/
def letters : List Lexeme → Text
  | .char c :: ls => if isAsciiLetter c then c :: letters ls else []
  | _ => []

theorem letters_spec (ls : List Lexeme) :
    ls = (letters ls).map Lexeme.char ++ ls.drop (letters ls).length ∧
      (∀ c ∈ letters ls, isAsciiLetter c) ∧ letterFirst (ls.drop (letters ls).length) = false := by
  fun_induction letters ls with
  | case1 c ls hc ih =>
    obtain ⟨heq, hletters, hfirst⟩ := ih
    refine ⟨?_, List.forall_mem_cons.mpr ⟨hc, hletters⟩, hfirst⟩
    rw [List.map_cons, List.length_cons, List.drop_succ_cons, List.cons_append, ← heq]
  | case2 c ls hc => exact ⟨rfl, nofun, Bool.eq_false_iff.mpr hc⟩
  | case3 ls hother =>
    refine ⟨rfl, nofun, ?_⟩
    cases ls with
    | nil => rfl
    | cons l ls =>
      cases l with
      | word w => rfl
      | symbol c => rfl
      | char c => exact absurd rfl (hother c ls)

theorem spell_map_char (t : Text) : spell (t.map Lexeme.char) = t := by
  induction t with
  | nil => rfl
  | cons c t ih => rw [List.map_cons, spell_cons, ih]; rfl

/-- No line break stands in front of letters that would make a command of it. -/
def Reduction.Spares (r : Reduction) : List Lexeme → Prop
  | [] => True
  | l :: ls =>
    (l = .symbol '\\' → r.reach? 0 (.word (letters ls)) (ls.drop (letters ls).length) = none) ∧
      Reduction.Spares r ls

instance Reduction.decidableSpares (r : Reduction) : (ls : List Lexeme) → Decidable (r.Spares ls)
  | [] => isTrue trivial
  | l :: ls =>
    have := Reduction.decidableSpares r ls
    inferInstanceAs (Decidable ((l = .symbol '\\' →
      r.reach? 0 (.word (letters ls)) (ls.drop (letters ls).length) = none) ∧ r.Spares ls))

/-- A recogniser **reads** the commands of a reduction. -/
structure Reads (read : Recognizer Text) (r : Reduction) : Prop where
  command : ∀ pos before w ls, (∀ c ∈ w, isAsciiLetter c) → letterFirst ls = false → Formed ls →
    read before ('\\' :: (w ++ spell ls)) =
      (r.reach? pos (.word w) ls).map fun k => (spell r.written, spell (ls.drop k))
  word : ∀ before t value after, read before t = some (value, after) →
    ∃ c t', t = '\\' :: c :: t' ∧ isAsciiLetter c

/-- **A reader of a name and what follows it** reads the commands of a reduction. -/
theorem Reads.of_name {r : Reduction} (name? : Text → Option Text)
    (behind : Text → Option (Text × Text))
    (hname : ∀ pos w t, (∀ c ∈ w, isAsciiLetter c) → nameEnds t →
      name? ('\\' :: (w ++ t)) = if r.command pos w then some t else none)
    (hletter : ∀ t rest, name? t = some rest → ∃ c t', t = '\\' :: c :: t' ∧ isAsciiLetter c)
    (hnil : behind [] = none)
    (hbehind : ∀ d rest, Formed (d :: rest) → behind (spell (d :: rest)) =
      if r.follows d then some (spell r.written, spell (if d = .char '.' then rest else d :: rest))
      else none) :
    Reads (fun _ t => (name? t).bind fun t => behind (Text.skipBlanks t)) r where
  command pos before w ls hw hfirst hformed := by
    rw [hname pos w _ hw (nameEnds_spell hfirst), Reduction.reach?]
    by_cases hcommand : r.command pos w = true
    · rw [if_pos hcommand, Option.bind_some, skipBlanks_spell]
      cases hds : ls.dropWhile Lexeme.isBlank with
      | nil => exact hnil
      | cons d rest =>
        obtain ⟨hsplit, -⟩ := split_blanks hds
        generalize ls.takeWhile Lexeme.isBlank = blanks at hsplit ⊢
        subst hsplit
        rw [hbehind d rest hformed.of_append]
        dsimp only
        rw [hcommand, Bool.true_and]
        split
        · by_cases hd : d = .char '.' <;> simp [hd]
        · rfl
    · rw [if_neg hcommand, Option.bind_none]
      cases ls.dropWhile Lexeme.isBlank with
      | nil => rfl
      | cons d rest => simp [hcommand]
  word before t value after h := by
    obtain ⟨rest, hrest, -⟩ := Option.bind_eq_some_iff.mp h
    exact hletter t rest hrest

section Passes

variable {read : Recognizer Text} {r : Reduction} {pos : Nat}

theorem Reads.eq_none_of_ne (hread : Reads read r) (before : Text) {c : Char} (hc : c ≠ '\\')
    (t : Text) : read before (c :: t) = none := by
  cases h : read before (c :: t) with
  | none => rfl
  | some found =>
    obtain ⟨d, t', heq, -⟩ := hread.word _ _ _ _ h
    exact absurd (List.cons.inj heq).1 hc

theorem Reads.eq_none_of_not_letter (hread : Reads read r) (before : Text) {t : Text}
    (ht : ∀ c ∈ t.head?, ¬ isAsciiLetter c) : read before ('\\' :: t) = none := by
  cases h : read before ('\\' :: t) with
  | none => rfl
  | some found =>
    obtain ⟨d, t', heq, hd⟩ := hread.word _ _ _ _ h
    obtain ⟨-, rfl⟩ := List.cons.inj heq
    exact absurd hd (ht d rfl)

/-- Nothing is read behind the backslash of a line break. -/
theorem Reads.eq_none_of_spares (hread : Reads read r) {ls : List Lexeme} (hformed : Formed ls)
    (hspares : r.reach? 0 (.word (letters ls)) (ls.drop (letters ls).length) = none)
    (before : Text) : read before ('\\' :: spell ls) = none := by
  obtain ⟨heq, hletters, hfirst⟩ := letters_spec ls
  rw [heq, spell_append, spell_map_char,
    hread.command 0 before _ _ hletters hfirst (hformed.drop _), hspares]
  rfl

/-- In a lexeme that stays nothing is read. -/
theorem Reads.eq_none_within (hread : Reads read r) {l : Lexeme} {ls : List Lexeme} {x y : Text}
    {c : Char} (hformed : Formed (l :: ls)) (hspares : r.Spares (l :: ls))
    (hglued : Unglued (l :: ls)) (hreach : r.reach? pos l ls = none)
    (hsplit : l.spelled = x ++ c :: y) (before : Text) :
    read before (c :: (y ++ spell ls)) = none := by
  obtain ⟨hl, hformed⟩ := hformed
  cases l with
  | char d =>
    obtain ⟨rfl, rfl, rfl⟩ : x = [] ∧ c = d ∧ y = [] := by
      cases x <;> simp_all [Lexeme.spelled]
    by_cases hc : c = '\\'
    · rw [hc, hl hc]
      exact hread.eq_none_of_not_letter _ (by simp)
    · exact hread.eq_none_of_ne _ hc _
  | symbol d =>
    have hletter : ¬ isAsciiLetter d = true := hl
    cases x with
    | nil =>
      obtain ⟨rfl, rfl⟩ := List.cons.inj hsplit
      exact hread.eq_none_of_not_letter _ (by simpa using hletter)
    | cons b x =>
      obtain ⟨-, hsplit⟩ := List.cons.inj hsplit
      obtain ⟨rfl, rfl, rfl⟩ : x = [] ∧ c = d ∧ y = [] := by cases x <;> simp_all
      by_cases hc : c = '\\'
      · rw [hc] at hspares ⊢
        exact hread.eq_none_of_spares hformed (hspares.1 rfl) _
      · exact hread.eq_none_of_ne _ hc _
  | word w =>
    cases x with
    | nil =>
      obtain ⟨rfl, rfl⟩ := List.cons.inj hsplit
      rw [hread.command pos before w ls hl.2 (hglued.1 rfl) hformed, hreach]
      rfl
    | cons b x =>
      obtain ⟨-, hsplit⟩ := List.cons.inj hsplit
      have hc : isAsciiLetter c := hl.2 c (by rw [hsplit]; simp)
      exact hread.eq_none_of_ne _ (Text.ne_backslash_of_isAsciiLetter hc) _

/-- A command that is replaced goes with some lexemes behind it. -/
theorem Reads.replaceFrom_word (hread : Reads read r) {w : Text} {ls : List Lexeme} {k : Nat}
    (hw : ∀ c ∈ w, isAsciiLetter c) (hformed : Formed ls)
    (hreach : r.reach? pos (.word w) ls = some k) (before : Text) :
    Scan.replaceFrom read before 0 (spell (.word w :: ls)) = spell r.written ++
      Scan.replaceFrom read (w.reverse ++ '\\' :: before) (spell (ls.take k)).length (spell ls) := by
  have hcommand := hread.command pos before w ls hw (Reduction.letterFirst_of_reach? hreach) hformed
  rw [hreach] at hcommand
  have hsplit : (spell ls).length = (spell (ls.take k)).length + (spell (ls.drop k)).length := by
    rw [← List.length_append, ← spell_append, List.take_append_drop]
  have hsize : (w ++ spell ls).length - (spell (ls.drop k)).length =
      w.length + (spell (ls.take k)).length := by
    rw [List.length_append]
    omega
  rw [spell_cons, Lexeme.spelled, List.cons_append, Scan.replaceFrom, hcommand]
  dsimp only [Option.map_some]
  rw [hsize, Scan.replaceFrom_skip]

theorem replaceFrom_spell (hread : Reads read r) {ls : List Lexeme} (before : Text) (pos : Nat)
    {k : Nat} (hk : k ≤ ls.length) (hformed : Formed ls) (hspares : r.Spares ls)
    (hglued : Unglued ls) :
    Scan.replaceFrom read before (spell (ls.take k)).length (spell ls) =
      spell (r.reduceFrom pos k ls) := by
  induction ls generalizing before pos k with
  | nil =>
    cases k with
    | zero => rfl
    | succ k => cases hk
  | cons l ls ih =>
    cases k with
    | succ k =>
      rw [List.take_succ_cons, spell_cons, spell_cons, List.length_append, Scan.replaceFrom_skip]
      exact ih _ _ (Nat.le_of_succ_le_succ hk) hformed.2 hspares.2 hglued.2
    | zero =>
      rw [List.take_zero, spell_nil, List.length_nil, Reduction.reduceFrom]
      cases hreach : r.reach? pos l ls with
      | none =>
        have hrest := ih (l.spelled.reverse ++ before) (pos + l.spelled.length) (Nat.zero_le _)
          hformed.2 hspares.2 hglued.2
        rw [spell_cons, Scan.replaceFrom_copy fun x c y hsplit =>
          hread.eq_none_within hformed hspares hglued hreach hsplit _]
        rw [List.take_zero, spell_nil, List.length_nil] at hrest
        rw [hrest, spell_cons]
      | some k =>
        obtain ⟨w, -, -, -, rfl, -⟩ := Reduction.exists_of_reach? hreach
        rw [hread.replaceFrom_word hformed.1.2 hformed.2 hreach,
          ih _ _ (Reduction.le_length_of_reach? hreach) hformed.2 hspares.2 hglued.2, spell_append]

/-- **A pass reduces the lexemes** of a text, where nothing is glued and every line break is
    spared. -/
theorem replace_spell (hread : Reads read r) {ls : List Lexeme} (hformed : Formed ls)
    (hspares : r.Spares ls) (hglued : Unglued ls) :
    Scan.replace read (spell ls) = spell (r.reduce ls) :=
  replaceFrom_spell hread [] 0 (Nat.zero_le _) hformed hspares hglued

end Passes

/-! ### What is left of the lexemes -/

section Left

variable {r : Reduction} {pos k : Nat}

theorem Formed.written {ms : List Lexeme} (h : Formed ms) : Formed (r.written ++ ms) := by
  have hwords := r.written_word
  generalize r.written = us at hwords
  induction us with
  | nil => exact h
  | cons u us ih =>
    obtain ⟨⟨w, rfl, hw⟩, hrest⟩ := List.forall_mem_cons.mp hwords
    exact ⟨hw, ih hrest⟩

theorem formed_reduceFrom (h : Formed (ls.drop k)) : Formed (r.reduceFrom pos k ls) := by
  fun_induction Reduction.reduceFrom r pos k ls with
  | case1 => trivial
  | case2 pos l ls skip ih => exact ih h
  | case3 pos l ls hreach ih =>
    obtain ⟨hl, hls⟩ := h
    refine ⟨?_, ih hls⟩
    cases l with
    | word w => exact hl
    | symbol c => exact hl
    | char c =>
      intro hc
      rw [hl hc]
      rfl
  | case4 pos l ls k hreach ih => exact (ih (h.2.drop k)).written

/-- In front of characters a list is unglued if it is without them. -/
theorem Unglued.append_left {us : List Lexeme} (hus : ∀ u ∈ us, ∃ c, u = .char c)
    (h : Unglued ls) : Unglued (us ++ ls) := by
  induction us with
  | nil => exact h
  | cons u us ih =>
    obtain ⟨⟨c, rfl⟩, hrest⟩ := List.forall_mem_cons.mp hus
    exact ⟨nofun, ih hrest⟩

theorem exists_char_of_isBlank {l : Lexeme} (h : l.isBlank) : ∃ c, l = .char c := by
  cases l with
  | word w => cases h
  | symbol c => cases h
  | char c => exact ⟨c, rfl⟩

theorem letterFirst_reduceFrom_zero (h : letterFirst ls = true) :
    letterFirst (r.reduceFrom pos 0 ls) = true := by
  cases ls with
  | nil => cases h
  | cons l ls =>
    cases l with
    | word w => cases h
    | symbol c => cases h
    | char c => exact h

/-- **What is glued stays glued**: a command in front of a letter is not replaced. -/
theorem unglued_of_reduceFrom (h : Unglued (r.reduceFrom pos k ls)) : Unglued (ls.drop k) := by
  fun_induction Reduction.reduceFrom r pos k ls with
  | case1 k => rwa [List.drop_nil]
  | case2 pos l ls skip ih => exact ih h
  | case3 pos l ls hreach ih =>
    refine ⟨fun hl => ?_, ih h.2⟩
    rw [Bool.eq_false_iff]
    intro hfirst
    have hglued := h.1 hl
    rw [letterFirst_reduceFrom_zero hfirst] at hglued
    cases hglued
  | case4 pos l ls k hreach ih =>
    have hrest := ih h.of_append
    have hfirst := Reduction.letterFirst_of_reach? hreach
    obtain ⟨w, blanks, dots, rest, rfl, -, rfl, rfl, hblanks, hdots⟩ :=
      Reduction.exists_of_reach? hreach
    rw [List.drop_left] at hrest
    refine ⟨fun _ => hfirst, Unglued.append_left ?_ hrest⟩
    intro u hu
    rcases List.mem_append.mp hu with hu | hu
    · exact exists_char_of_isBlank (hblanks u hu)
    · rcases hdots with rfl | rfl
      · cases hu
      · exact ⟨'.', List.mem_singleton.mp hu⟩

/-- A reduction writes words only. -/
theorem mem_of_mem_reduceFrom {c : Char} (h : .symbol c ∈ r.reduceFrom pos k ls) :
    .symbol c ∈ ls := by
  fun_induction Reduction.reduceFrom r pos k ls with
  | case1 => cases h
  | case2 pos l ls skip ih => exact List.mem_cons_of_mem l (ih h)
  | case3 pos l ls hreach ih =>
    rcases List.mem_cons.mp h with rfl | h
    · exact List.mem_cons_self
    · exact List.mem_cons_of_mem l (ih h)
  | case4 pos l ls k hreach ih =>
    rcases List.mem_append.mp h with h | h
    · obtain ⟨w, hw, -⟩ := r.written_word _ h
      cases hw
    · exact List.mem_cons_of_mem l (ih h)

/-- Without line breaks all are spared. -/
theorem Reduction.spares_of_not_mem (h : .symbol '\\' ∉ ls) : r.Spares ls := by
  induction ls with
  | nil => trivial
  | cons l ls ih =>
    refine ⟨?_, ih fun hmem => h (List.mem_cons_of_mem l hmem)⟩
    rintro rfl
    exact absurd List.mem_cons_self h

/-! ### What comes to stand together -/

section Together

variable {p : Lexeme → Bool} (hdot : r.follows (.char '.') = true → p (.char '.') = true)

include hdot

/-- Behind a command that is replaced no letter stands, if none stands behind a dot that goes. -/
theorem letterFirst_drop_of_reach? {l : Lexeme} (hreach : r.reach? pos l ls = some k)
    (h : Parted p ls) : letterFirst (ls.drop k) = false := by
  obtain ⟨w, blanks, d, rest, -, rfl, -, -, -, hfollows, rfl⟩ :=
    Reduction.reach?_eq_some_iff.mp hreach
  by_cases hd : d = .char '.'
  · rw [if_pos hd, List.drop_length_add_append]
    subst hd
    exact h.of_append.1 (hdot hfollows)
  · rw [if_neg hd, Nat.add_zero, List.drop_left]
    exact Reduction.letterFirst_of_follows hfollows rest

theorem letterFirst_reduceFrom (h : Parted p (ls.drop k))
    (hfirst : letterFirst (ls.drop k) = false) : letterFirst (r.reduceFrom pos k ls) = false := by
  fun_induction Reduction.reduceFrom r pos k ls with
  | case1 k => rfl
  | case2 pos l ls skip ih => exact ih h hfirst
  | case3 pos l ls hreach ih => cases l <;> exact hfirst
  | case4 pos l ls k hreach ih =>
    cases hwritten : r.written with
    | nil => exact ih (h.2.drop k) (letterFirst_drop_of_reach? hdot hreach h.2)
    | cons u us =>
      obtain ⟨w, rfl, -⟩ := r.written_word u (by simp [hwritten])
      rfl

omit hdot in
/-- Words in front of a list leave it parted unless it begins with a letter. -/
theorem Parted.written {ms : List Lexeme} (h : Parted p ms) (hfirst : letterFirst ms = false) :
    Parted p (r.written ++ ms) := by
  have hwords := r.written_word
  generalize r.written = us at hwords
  induction us with
  | nil => exact h
  | cons u us ih =>
    obtain ⟨-, hrest⟩ := List.forall_mem_cons.mp hwords
    refine ⟨fun _ => ?_, ih hrest⟩
    cases us with
    | nil => exact hfirst
    | cons u us =>
      obtain ⟨w, rfl, -⟩ := hrest u List.mem_cons_self
      rfl

/-- **A reduction leaves parted what it finds parted**, if the class holds the dots that go. -/
theorem parted_reduceFrom (h : Parted p (ls.drop k)) : Parted p (r.reduceFrom pos k ls) := by
  fun_induction Reduction.reduceFrom r pos k ls with
  | case1 => trivial
  | case2 pos l ls skip ih => exact ih h
  | case3 pos l ls hreach ih =>
    exact ⟨fun hl => letterFirst_reduceFrom hdot (k := 0) h.2 (h.1 hl), ih h.2⟩
  | case4 pos l ls k hreach ih =>
    have hrest := h.2.drop k
    exact (ih hrest).written (letterFirst_reduceFrom hdot hrest
      (letterFirst_drop_of_reach? hdot hreach h.2))

theorem parted_reduce (h : Parted p ls) : Parted p (r.reduce ls) :=
  parted_reduceFrom hdot (k := 0) h

end Together

theorem formed_reduce (h : Formed ls) : Formed (r.reduce ls) := formed_reduceFrom (k := 0) h

theorem unglued_of_reduce (h : Unglued (r.reduce ls)) : Unglued ls :=
  unglued_of_reduceFrom (k := 0) h

/-! ### What is taken from the lexemes -/

/-- Lexemes from which some commands have been **taken out**, and with a command perhaps the dot
    that came to stand behind it. -/
inductive Thinned (command : Text → Prop) : List Lexeme → List Lexeme → Prop
  | nil : Thinned command [] []
  | keep {ls ms : List Lexeme} (l : Lexeme) : Thinned command ls ms →
    Thinned command (l :: ls) (l :: ms)
  | command {ls ms : List Lexeme} {w : Text} : command w → Thinned command ls ms →
    Thinned command (.word w :: ls) ms
  | dot {ls ms : List Lexeme} {w : Text} : command w → Thinned command ls (.char '.' :: ms) →
    Thinned command (.word w :: ls) ms

theorem Thinned.trans {command : Text → Prop} {ls ms ns : List Lexeme}
    (h : Thinned command ls ms) (h' : Thinned command ms ns) : Thinned command ls ns := by
  induction h generalizing ns with
  | nil => exact h'
  | keep l h ih =>
    generalize hall : l :: _ = all at h'
    cases h' with
    | nil => cases hall
    | keep l' h' =>
      cases hall
      exact .keep l (ih h')
    | command hw h' =>
      cases hall
      exact .command hw (ih h')
    | dot hw h' =>
      cases hall
      exact .dot hw (ih h')
  | command hw h ih => exact .command hw (ih h')
  | dot hw h ih => exact .dot hw (ih (.keep _ h'))

theorem Thinned.subset {command : Text → Prop} {ls ms : List Lexeme}
    (h : Thinned command ls ms) : ms ⊆ ls := by
  induction h with
  | nil => exact List.Subset.refl _
  | keep l _ ih => exact List.cons_subset_cons l ih
  | command _ _ ih => exact List.subset_cons_of_subset _ ih
  | dot _ _ ih => exact List.subset_cons_of_subset _ (List.subset_of_cons_subset ih)

/-- **What a reduction takes out**: commands, and the dots of invisible delimiters. -/
theorem thinned_reduceFrom {command : Text → Prop}
    (hcommand : ∀ pos w, r.command pos w = true → command w) (hwritten : r.written = []) :
    Thinned command (unblanked (ls.drop k)) (unblanked (r.reduceFrom pos k ls)) := by
  fun_induction Reduction.reduceFrom r pos k ls with
  | case1 k =>
    rw [List.drop_nil]
    exact .nil
  | case2 pos l ls skip ih => exact ih
  | case3 pos l ls hreach ih =>
    rw [List.drop_zero] at ih ⊢
    cases hblank : l.isBlank with
    | true => simpa [unblanked, hblank] using ih
    | false => simpa [unblanked, hblank] using ih.keep l
  | case4 pos l ls k hreach ih =>
    obtain ⟨w, blanks, dots, rest, rfl, hw, rfl, rfl, hblanks, hdots⟩ :=
      Reduction.exists_of_reach? hreach
    have hword : unblanked (.word w :: (blanks ++ dots ++ rest)) =
        .word w :: (unblanked dots ++ unblanked rest) := by
      rw [unblanked, List.filter_cons_of_pos rfl, ← unblanked, unblanked_append, unblanked_append,
        unblanked_blanks hblanks, List.nil_append]
    rw [List.drop_left] at ih
    rw [List.drop_zero, hword, hwritten, List.nil_append]
    rcases hdots with rfl | rfl
    · exact .command (hcommand pos w hw) ih
    · exact .dot (hcommand pos w hw) (ih.keep (.char '.'))

theorem thinned_reduce {command : Text → Prop}
    (hcommand : ∀ pos w, r.command pos w = true → command w) (hwritten : r.written = [])
    (ls : List Lexeme) : Thinned command (unblanked ls) (unblanked (r.reduce ls)) :=
  thinned_reduceFrom (k := 0) hcommand hwritten

end Left

end TexMark.Markup
