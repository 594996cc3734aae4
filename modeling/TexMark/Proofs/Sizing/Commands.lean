/-
  TexMark/Proofs/Sizing/Commands.lean
  ===================================
  **What the passes read.**  The recognisers of single sizes, of the command for prose and of
  paired sizes are told by what they read of lexemes: the first three read the commands of a
  `Reduction` each, and a paired size that goes stands in front of a plain delimiter
  (`sized_spell`).
-/
import TexMark.Layout
import TexMark.Proofs.Sizing.Reductions

namespace TexMark.Sizing

open Markup
open Text (isAsciiLetter)

/-! ### Names of single sizes -/

/-- The names of the `\big` family. -/
def bigNames : List Text :=
  (["big", "Big"] : List Text).flatMap fun base => (["", "g"] : List Text).flatMap fun more =>
    (["", "l", "r", "m"] : List Text).map fun side => base ++ (more ++ side)

theorem isAsciiLetter_of_mem_bigNames {name : Text} (h : name ∈ bigNames) :
    ∀ c ∈ name, isAsciiLetter c :=
  List.all_eq_true.mp (List.all_eq_true.mp (by decide :
    bigNames.all fun name => name.all isAsciiLetter) name h)

theorem dropOneOf_spec (chars t : Text) :
    ∃ u, t = u ++ dropOneOf chars t ∧ (u = [] ∨ ∃ c ∈ chars, u = [c]) := by
  cases t with
  | nil => exact ⟨[], rfl, .inl rfl⟩
  | cons c t =>
    rw [dropOneOf]
    split
    · rename_i hc
      exact ⟨[c], rfl, .inr ⟨c, by simpa using hc, rfl⟩⟩
    · exact ⟨[], rfl, .inl rfl⟩

/-- Behind a name no letter is dropped. -/
theorem dropOneOf_of_nameEnds {chars t : Text} (hchars : chars.all isAsciiLetter)
    (ht : nameEnds t) : dropOneOf chars t = t := by
  cases t with
  | nil => rfl
  | cons c t =>
    have hletter : isAsciiLetter c = false := by simpa [nameEnds] using ht
    have hc : c ∉ chars := by
      intro hmem
      rw [List.all_eq_true.mp hchars c hmem] at hletter
      cases hletter
    rw [dropOneOf, if_neg (by simpa using hc)]

theorem big?_spec {t rest : Text} (h : big? t = some rest) :
    ∃ name ∈ bigNames, t = '\\' :: (name ++ rest) ∧ nameEnds rest = true := by
  obtain ⟨behind, hbase, h⟩ := Option.bind_eq_some_iff.mp h
  dsimp only at h
  split at h
  · rename_i hends
    obtain ⟨more, hmore, hmore'⟩ := dropOneOf_spec ['g'] behind
    obtain ⟨side, hside, hside'⟩ := dropOneOf_spec ['l', 'r', 'm'] (dropOneOf ['g'] behind)
    have hbase' : ∃ base ∈ (["big", "Big"] : List Text), t = '\\' :: (base ++ behind) := by
      rw [Option.orElse_eq_orElse, Option.orElse_eq_or, Option.or_eq_some_iff] at hbase
      rcases hbase with hbase | ⟨-, hbase⟩
      · exact ⟨_, List.mem_cons_self, Text.dropPrefix?_eq_some_iff.mp hbase⟩
      · exact ⟨_, List.mem_cons_of_mem _ List.mem_cons_self, Text.dropPrefix?_eq_some_iff.mp hbase⟩
    obtain rfl := Option.some.inj h
    obtain ⟨base, hmem, rfl⟩ := hbase'
    refine ⟨base ++ (more ++ side), ?_, ?_, hends⟩
    · simp only [bigNames, List.mem_flatMap, List.mem_map]
      refine ⟨base, hmem, more, ?_, side, ?_, rfl⟩
      · rcases hmore' with rfl | ⟨c, hc, rfl⟩
        · decide
        · obtain rfl := List.mem_singleton.mp hc
          decide
      · rcases hside' with rfl | ⟨c, hc, rfl⟩
        · decide
        · simp only [List.mem_cons, List.not_mem_nil, or_false] at hc
          rcases hc with rfl | rfl | rfl <;> decide
    · rw [List.append_assoc, List.append_assoc, ← hside, ← hmore]
  · cases h

theorem big?_of_mem {name rest : Text} (hname : name ∈ bigNames) (hrest : nameEnds rest) :
    big? ('\\' :: (name ++ rest)) = some rest := by
  simp only [bigNames, List.mem_flatMap, List.mem_map] at hname
  obtain ⟨base, hbase, more, hmore, side, hside, rfl⟩ := hname
  have hcommand : (command? "big" ('\\' :: (base ++ (more ++ side) ++ rest)) <|>
      command? "Big" ('\\' :: (base ++ (more ++ side) ++ rest))) =
        some (more ++ (side ++ rest)) := by
    simp only [List.mem_cons, List.not_mem_nil, or_false] at hbase
    rw [List.append_assoc, List.append_assoc]
    rcases hbase with rfl | rfl
    · rfl
    · rfl
  have hdropped : dropOneOf ['l', 'r', 'm'] (side ++ rest) = rest := by
    simp only [List.mem_cons, List.not_mem_nil, or_false] at hside
    rcases hside with rfl | rfl | rfl | rfl
    · exact dropOneOf_of_nameEnds (by decide) hrest
    · rfl
    · rfl
    · rfl
  have hdropped' : dropOneOf ['g'] (more ++ (side ++ rest)) = side ++ rest := by
    simp only [List.mem_cons, List.not_mem_nil, or_false] at hmore hside
    rcases hmore with rfl | rfl
    · rcases hside with rfl | rfl | rfl | rfl
      · exact dropOneOf_of_nameEnds (by decide) hrest
      · rfl
      · rfl
      · rfl
    · rfl
  simp only [big?, hcommand, Option.bind_eq_bind, Option.bind_some, hdropped', hdropped]
  rw [if_pos hrest]

/-- **A single size is read** if its whole name is one of the family. -/
theorem big?_eq {w t : Text} (hw : ∀ c ∈ w, isAsciiLetter c) (ht : nameEnds t) :
    big? ('\\' :: (w ++ t)) = if w ∈ bigNames then some t else none := by
  split
  · rename_i hmem
    exact big?_of_mem hmem ht
  · rename_i hmem
    cases h : big? ('\\' :: (w ++ t)) with
    | none => rfl
    | some rest =>
      obtain ⟨name, hname, heq, hrest⟩ := big?_spec h
      obtain ⟨rfl, -⟩ := name_unique hw (isAsciiLetter_of_mem_bigNames hname) ht hrest
        (List.cons.inj heq).2
      exact absurd hname hmem

/-- A single size begins with a letter behind its backslash. -/
theorem exists_letter_of_big? {t rest : Text} (h : big? t = some rest) :
    ∃ c t', t = '\\' :: c :: t' ∧ isAsciiLetter c := by
  obtain ⟨name, hname, rfl, -⟩ := big?_spec h
  cases name with
  | nil => exact absurd hname (by decide)
  | cons c name =>
    exact ⟨c, name ++ rest, rfl, isAsciiLetter_of_mem_bigNames hname c List.mem_cons_self⟩

/-! ### The reductions -/

/-- Can a lexeme be written as a delimiter without a size? -/
def isDelimiter : Lexeme → Bool
  | .word _ => false
  | .symbol c => isEscapedDelimiter c
  | .char c => isDelimiterChar c

/-- No letter is a delimiter, escaped or not. -/
theorem no_letter_delimits {c : Char} (hc : isAsciiLetter c) :
    isDelimiterChar c = false ∧ isEscapedDelimiter c = false := by
  have hmarks : ['(', ')', '[', ']', '|', '{', '}'].all fun d => !isAsciiLetter d := by decide
  have hne : ∀ d ∈ ['(', ')', '[', ']', '|', '{', '}'], c ≠ d := by
    rintro d hd rfl
    have hletter := List.all_eq_true.mp hmarks c hd
    rw [hc] at hletter
    cases hletter
  simp only [List.forall_mem_cons] at hne
  simp [isDelimiterChar, isEscapedDelimiter, hne]

/-- Single sizes go with the invisible delimiter behind them. -/
def invisibles : Reduction where
  command _ w := bigNames.contains w
  follows l := l == .char '.'
  written := []
  follows_word _ := rfl
  follows_letter c hc := by
    rw [beq_eq_false_iff_ne]
    rintro ⟨⟩
    revert hc
    decide
  written_word := nofun

/-- Single sizes go in front of a delimiter. -/
def singles : Reduction where
  command _ w := bigNames.contains w
  follows := isDelimiter
  written := []
  follows_word _ := rfl
  follows_letter _ hc := (no_letter_delimits hc).1
  written_word := nofun

/-- The command for prose is renamed in front of a group. -/
def proses : Reduction where
  command _ w := w == "text".toList
  follows l := l == .char '{'
  written := [.word "mathrm"]
  follows_word _ := rfl
  follows_letter c hc := by
    rw [beq_eq_false_iff_ne]
    rintro ⟨⟩
    revert hc
    decide
  written_word := by
    intro l hl
    obtain rfl := List.mem_singleton.mp hl
    exact ⟨_, rfl, by decide, List.all_eq_true.mp (by decide)⟩

theorem delimiterFollows_spell {d : Lexeme} {ls : List Lexeme} (h : Formed (d :: ls)) :
    delimiterFollows (spell (d :: ls)) = isDelimiter d := by
  obtain ⟨hd, -⟩ := h
  cases d with
  | word w =>
    obtain ⟨hne, hw⟩ := hd
    obtain ⟨c, w, rfl⟩ := List.exists_cons_of_ne_nil hne
    exact (no_letter_delimits (hw c List.mem_cons_self)).2
  | symbol c => rfl
  | char c =>
    by_cases hc : c = '\\'
    · rw [hd hc, hc]
      rfl
    · simp [Lexeme.spelled, delimiterFollows, isDelimiter, hc]

theorem reads_invisible : Reads invisible invisibles := by
  refine Reads.of_name big? (fun t => (char? '.' t).bind fun t => some ([], t)) ?_ ?_ rfl ?_
  · intro pos w t hw ht
    simpa [invisibles] using big?_eq hw ht
  · exact fun _ _ => exists_letter_of_big?
  · intro d rest _
    cases d with
    | word w => rfl
    | symbol c => rfl
    | char c => by_cases hc : c = '.' <;> simp [invisibles, Lexeme.spelled, char?, hc]

theorem reads_single : Reads single singles := by
  refine Reads.of_name big? (fun t => if delimiterFollows t then some ([], t) else none) ?_ ?_ rfl
    ?_
  · intro pos w t hw ht
    simpa [singles] using big?_eq hw ht
  · exact fun _ _ => exists_letter_of_big?
  · intro d rest hformed
    rw [delimiterFollows_spell hformed]
    by_cases hd : isDelimiter d = true
    · have hdot : d ≠ .char '.' := by
        rintro rfl
        cases hd
      simp [singles, hd, hdot]
    · simp [singles, hd]

theorem reads_prose : Reads Layout.prose proses := by
  refine Reads.of_name (word? "text") (fun t => if t.head? = some '{' then some ("\\mathrm", t)
    else none) ?_ ?_ rfl ?_
  · intro pos w t hw ht
    have hname : "text".toList.all isAsciiLetter := by decide
    simpa [proses] using word?_eq (List.all_eq_true.mp hname) hw ht
  · intro t rest h
    obtain ⟨rfl, -⟩ := word?_eq_some_iff.mp h
    exact ⟨'t', _, rfl, by decide⟩
  · intro d rest _
    cases d with
    | word w => rfl
    | symbol c => rfl
    | char c => by_cases hc : c = '{' <;> simp [proses, Lexeme.spelled, hc]

/-! ### Pairs of sizes -/

/-- `\left` and `\right` go at some offsets, and take the invisible delimiter with them. -/
def paired (gone : List Nat) : Reduction where
  command pos w := gone.contains pos && (w == "left".toList || w == "right".toList)
  follows l := isDelimiter l || l == .char '.'
  written := []
  follows_word _ := rfl
  follows_letter c hc := by
    have hdot : c ≠ '.' := by
      rintro rfl
      revert hc
      decide
    simp [isDelimiter, (no_letter_delimits hc).1, hdot]
  written_word := nofun

theorem delimiter?_backslash (c : Char) (t : Text) : delimiter? ('\\' :: c :: t) =
    if isAsciiLetter c then
      some ('\\' :: (c :: t).takeWhile isAsciiLetter, (c :: t).dropWhile isAsciiLetter)
    else if c = '\n' then none else some (['\\', c], t) := rfl

theorem delimiter?_of_ne {c : Char} (hc : c ≠ '\\') (t : Text) :
    delimiter? (c :: t) = if Text.isBlank c then none else some ([c], t) := by
  unfold delimiter?
  split
  · rename_i heq
    cases heq
  · rename_i heq
    exact absurd (List.cons.inj heq).1 hc
  · rename_i heq
    cases heq
    rfl

/-- What is read as a delimiter. -/
theorem delimiter?_spell {d : Lexeme} {ls : List Lexeme} {delimiter after : Text}
    (h : delimiter? (spell (d :: ls)) = some (delimiter, after)) (hformed : Formed (d :: ls))
    (hplain : isPlain delimiter) : delimiter = d.spelled ∧ after = spell ls ∧
      (isDelimiter d = true ∨ d = .char '.') := by
  obtain ⟨hd, -⟩ := hformed
  cases d with
  | word w =>
    -- a command is no plain delimiter
    obtain ⟨hne, hw⟩ := hd
    obtain ⟨c, w, rfl⟩ := List.exists_cons_of_ne_nil hne
    have hc := hw c List.mem_cons_self
    rw [spell_cons, Lexeme.spelled, List.cons_append, List.cons_append, delimiter?_backslash,
      if_pos hc, List.takeWhile_cons_of_pos hc] at h
    obtain ⟨rfl, -⟩ := Prod.mk.inj (Option.some.inj h)
    cases hname : (w ++ spell ls).takeWhile isAsciiLetter with
    | nil =>
      rw [hname, isPlain, (no_letter_delimits hc).2] at hplain
      cases hplain
    | cons b name =>
      rw [hname] at hplain
      cases hplain
  | symbol c =>
    have hletter : ¬ isAsciiLetter c = true := hd
    rw [spell_cons, Lexeme.spelled, List.cons_append, List.cons_append, delimiter?_backslash,
      if_neg hletter] at h
    split at h
    · cases h
    · cases h
      exact ⟨rfl, rfl, .inl hplain⟩
  | char c =>
    by_cases hc : c = '\\'
    · rw [hd hc, hc] at h
      cases h
    · rw [spell_cons, Lexeme.spelled, List.cons_append, delimiter?_of_ne hc] at h
      split at h
      · cases h
      · cases h
        refine ⟨rfl, rfl, ?_⟩
        simpa [isPlain, isDelimiter] using hplain

/-- What is read as a size: a word and, behind blanks, a delimiter. -/
theorem exists_of_sized {before t after : Text} {value : Sized}
    (h : sized before t = some (value, after)) : ∃ name rest,
      (name = "left".toList ∨ name = "right".toList) ∧ t = '\\' :: (name ++ rest) ∧
        nameEnds rest = true ∧
        delimiter? (Text.skipBlanks rest) = some (value.delimiter, after) := by
  rw [sized, Option.orElse_eq_orElse, Option.orElse_eq_or, Option.or_eq_some_iff] at h
  rcases h with h | ⟨-, h⟩
  all_goals
    obtain ⟨rest, hword, h⟩ := Option.bind_eq_some_iff.mp h
    obtain ⟨⟨delimiter, after'⟩, hdelimiter, h⟩ := Option.bind_eq_some_iff.mp h
    obtain ⟨ht, hends⟩ := word?_eq_some_iff.mp hword
    cases h
  · exact ⟨_, rest, .inl rfl, ht, hends, hdelimiter⟩
  · exact ⟨_, rest, .inr rfl, ht, hends, hdelimiter⟩

/-- **A size that goes** stands in front of a plain delimiter. -/
theorem sized_spell {w before after : Text} {ls : List Lexeme} {value : Sized}
    (h : sized before ('\\' :: (w ++ spell ls)) = some (value, after))
    (hw : ∀ c ∈ w, isAsciiLetter c) (hfirst : letterFirst ls = false) (hformed : Formed ls)
    (hplain : isPlain value.delimiter) : (w = "left".toList ∨ w = "right".toList) ∧
      ∃ blanks d rest, ls = blanks ++ d :: rest ∧ (∀ b ∈ blanks, b.isBlank) ∧ d.isBlank = false ∧
        value.delimiter = d.spelled ∧ after = spell rest ∧
        (isDelimiter d = true ∨ d = .char '.') := by
  obtain ⟨name, rest, hname, heq, hends, hread⟩ := exists_of_sized h
  have hletters : ∀ c ∈ name, isAsciiLetter c := by
    rcases hname with rfl | rfl <;> exact List.all_eq_true.mp (by decide)
  obtain ⟨rfl, rfl⟩ := name_unique hw hletters (nameEnds_spell hfirst) hends (List.cons.inj heq).2
  refine ⟨hname, ls.takeWhile Lexeme.isBlank, ?_⟩
  rw [skipBlanks_spell] at hread
  cases hbehind : ls.dropWhile Lexeme.isBlank with
  | nil =>
    rw [hbehind] at hread
    cases hread
  | cons d rest =>
    obtain ⟨hsplit, hblanks, hblank⟩ := split_blanks hbehind
    have hformed' : Formed (d :: rest) := by
      rw [hsplit] at hformed
      exact hformed.of_append
    rw [hbehind] at hread
    obtain ⟨hdelimiter, hafter, hd⟩ := delimiter?_spell hread hformed' hplain
    exact ⟨d, rest, hsplit, hblanks, hblank, hdelimiter, hafter, hd⟩
end TexMark.Sizing
