/-
  TexMark/Proofs/Citation/Commands.lean
  =====================================
  **Citations as they are written.**  A citation is a command of a known name, with a star perhaps,
  at most two notes in brackets and its keys in braces (`Reads`).

    * `Reads.command_notes`, `exists_reads` — the readers find just that;
    * `Reads.unique` — a citation is read in one way only;
    * `AreCitations.unique` — a text determines its leftmost citations that do not overlap.
-/
import TexMark.Proofs.Groups
import TexMark.Citation
import Mathlib.Data.List.Perm.Basic

namespace TexMark.Citation

open TexMark.Group (Follows IsSpace)

/-! ### What a citation is -/

/-- The **notes** at the head of a text, some number of them at most, and what stands behind
    them. -/
inductive Notes : Nat → Text → List Text → Text → Prop
  | none {count : Nat} (t : Text) : Notes count t [] t
  | note {count : Nat} {t note rest behind : Text} {notes : List Text}
      (h : Follows '[' ']' t note rest) (hrest : Notes count rest notes behind) :
      Notes (count + 1) t (note :: notes) behind

/-- A citation is **read** at the head of a text: the name of its command, its notes and its keys,
    and what stands behind it. -/
structure Reads (t name : Text) (notes : List Text) (keys rest : Text) : Prop where
  known : name ∈ commandNames
  stands : ∃ star tail behind, (star = [] ∨ star = ['*']) ∧ t = '\\' :: (name ++ star ++ tail) ∧
    Notes 2 tail notes behind ∧ Follows '{' '}' behind keys rest

/-- A citation of a text: where it begins and ends, and what it is made of. -/
structure Written where
  start : Nat
  stop : Nat
  name : Text
  notes : List Text
  keys : Text
deriving DecidableEq, Repr

/-- The citation stands in the text, and its backslash is not escaped. -/
structure IsCitation (text : Text) (c : Written) : Prop where
  unescaped : Scan.isEscaped text c.start = false
  reads : Reads (text.drop c.start) c.name c.notes c.keys (text.drop c.stop)
  ends : c.stop ≤ text.length

/-- The leftmost citations that do not overlap: every other one begins inside of one of them. -/
structure AreCitations (text : Text) (citations : List Written) : Prop where
  each : ∀ c ∈ citations, IsCitation text c
  apart : citations.Pairwise fun a b => a.stop ≤ b.start
  leftmost : ∀ c, IsCitation text c → ∃ c' ∈ citations, c'.start ≤ c.start ∧ c.start < c'.stop

/-! ### Groups -/

section

variable {t inner inner' rest rest' : Text}

theorem follows_braces_unique (h : Follows '{' '}' t inner rest)
    (h' : Follows '{' '}' t inner' rest') : inner = inner' ∧ rest = rest' := by
  have hsame := (Group.braces?_skipSpaces_eq_some_iff.mpr h).symm.trans
    (Group.braces?_skipSpaces_eq_some_iff.mpr h')
  exact Prod.mk.inj (Option.some.inj hsame)

theorem follows_brackets_unique (h : Follows '[' ']' t inner rest)
    (h' : Follows '[' ']' t inner' rest') : inner = inner' ∧ rest = rest' := by
  have hsame := (Group.brackets?_skipSpaces_eq_some_iff.mpr h).symm.trans
    (Group.brackets?_skipSpaces_eq_some_iff.mpr h')
  exact Prod.mk.inj (Option.some.inj hsame)

/-- Where keys follow, there is no note. -/
theorem brackets?_of_follows (h : Follows '{' '}' t inner rest) :
    Group.brackets? (Group.skipSpaces t) = Option.none := by
  obtain ⟨gap, ⟨hspaces, hbreaks⟩, rfl, -⟩ := h
  have hskip : Group.skipSpaces (gap ++ '{' :: (inner ++ '}' :: rest)) =
      '{' :: (inner ++ '}' :: rest) :=
    (Group.skipSpacesFrom_eq_cons_iff (by decide) false).mpr ⟨gap, rfl, hspaces, hbreaks⟩
  rw [hskip]
  rfl

theorem not_follows_brackets (h : Follows '{' '}' t inner rest) :
    ¬ Follows '[' ']' t inner' rest' := by
  intro h'
  have hread := Group.brackets?_skipSpaces_eq_some_iff.mpr h'
  rw [brackets?_of_follows h] at hread
  cases hread

/-- A group begins with a blank or with its opening character. -/
theorem Follows.exists_cons {opener closer : Char} (h : Follows opener closer t inner rest) :
    ∃ c t', t = c :: t' ∧ (IsSpace c ∨ c = opener) := by
  obtain ⟨gap, hgap, rfl, -⟩ := h
  cases gap with
  | nil => exact ⟨opener, _, rfl, .inr rfl⟩
  | cons c gap => exact ⟨c, _, rfl, .inl (hgap.spaces c List.mem_cons_self)⟩

end

/-! ### Notes -/

section

variable {count : Nat} {t behind behind' keys keys' rest rest' : Text} {given given' : List Text}

theorem notes_eq (h : Notes count t given behind) (hkeys : Follows '{' '}' behind keys rest) :
    notes count t = (given.map Text.strip, behind) := by
  induction h with
  | @none count t =>
    cases count with
    | zero => rfl
    | succ count =>
      rw [notes, brackets?_of_follows hkeys]
      rfl
  | note hnote _ ih =>
    rw [notes, Group.brackets?_skipSpaces_eq_some_iff.mpr hnote]
    simp [ih hkeys]

theorem exists_notes (count : Nat) (t : Text) :
    ∃ given, (notes count t).1 = given.map Text.strip ∧ Notes count t given (notes count t).2 := by
  induction count generalizing t with
  | zero => exact ⟨[], rfl, .none t⟩
  | succ count ih =>
    rw [notes]
    cases hread : Group.brackets? (Group.skipSpaces t) with
    | none => exact ⟨[], rfl, .none t⟩
    | some found =>
      obtain ⟨note, rest⟩ := found
      obtain ⟨given, hgiven, hnotes⟩ := ih rest
      exact ⟨note :: given, congrArg (Text.strip note :: ·) hgiven,
        .note (Group.brackets?_skipSpaces_eq_some_iff.mp hread) hnotes⟩

/-- Notes with keys behind them are read in one way only. -/
theorem Notes.unique (h : Notes count t given behind) (hkeys : Follows '{' '}' behind keys rest)
    (h' : Notes count t given' behind') (hkeys' : Follows '{' '}' behind' keys' rest') :
    given = given' ∧ behind = behind' := by
  induction h generalizing given' with
  | none t =>
    cases h' with
    | none => exact ⟨rfl, rfl⟩
    | note hnote => exact absurd hnote (not_follows_brackets hkeys)
  | note hnote _ ih =>
    cases h' with
    | none => exact absurd hnote (not_follows_brackets hkeys')
    | note hnote' hrest' =>
      obtain ⟨rfl, rfl⟩ := follows_brackets_unique hnote hnote'
      obtain ⟨rfl, rfl⟩ := ih hkeys hrest'
      exact ⟨rfl, rfl⟩

theorem Notes.exists_cons (h : Notes count t given behind)
    (hkeys : Follows '{' '}' behind keys rest) :
    ∃ c t', t = c :: t' ∧ (IsSpace c ∨ c = '[' ∨ c = '{') := by
  cases h with
  | none =>
    obtain ⟨c, t', ht, hc⟩ := Follows.exists_cons hkeys
    exact ⟨c, t', ht, hc.imp_right .inr⟩
  | note hnote =>
    obtain ⟨c, t', ht, hc⟩ := Follows.exists_cons hnote
    exact ⟨c, t', ht, hc.imp_right .inl⟩

end

/-! ### Commands -/

theorem isAsciiLetter_of_mem {name : Text} (h : name ∈ commandNames) :
    ∀ c ∈ name, Text.isAsciiLetter c :=
  List.all_eq_true.mp (List.all_eq_true.mp (by decide :
    commandNames.all fun name => name.all Text.isAsciiLetter) name h)

/-- What is read as a command. -/
theorem command_spec {before t name after : Text} (h : command before t = some (name, after)) :
    name ∈ commandNames ∧ ∃ star, (star = [] ∨ star = ['*']) ∧ t = '\\' :: (name ++ star ++ after) ∧
      Markup.nameEnds (star ++ after) := by
  obtain ⟨name', hmem, hname⟩ := List.exists_of_findSome?_eq_some h
  obtain ⟨afterName, hcommand, hread⟩ := Option.bind_eq_some_iff.mp hname
  have ht : t = '\\' :: name' ++ afterName := Text.dropPrefix?_eq_some_iff.mp hcommand
  dsimp only at hread
  split at hread
  · rename_i hends
    cases hread
    unfold Markup.star at hends ⊢
    split at hends
    · exact ⟨hmem, ['*'], .inr rfl, by simp [ht], rfl⟩
    · exact ⟨hmem, [], .inl rfl, by simp [ht], hends⟩
  · split at hread
    · rename_i hends
      cases hread
      exact ⟨hmem, [], .inl rfl, by simp [ht], hends⟩
    · cases hread

theorem oneCommand_command : Scan.OneCommand command := by
  intro before t name after h
  obtain ⟨hname, star, hstar, rfl, -⟩ := command_spec h
  refine ⟨name ++ star, by simp, ?_⟩
  intro hmem
  rcases List.mem_append.mp hmem with hmem | hmem
  · exact Text.ne_backslash_of_isAsciiLetter (isAsciiLetter_of_mem hname _ hmem) rfl
  · rcases hstar with rfl | rfl <;> simp at hmem

/-- A command is read if neither a letter nor a star stands behind it. -/
theorem command_eq_some {name star tail : Text} (hname : name ∈ commandNames)
    (hstar : star = [] ∨ star = ['*']) (hends : Markup.nameEnds tail)
    (htail : tail.head? ≠ some '*') (before : Text) :
    command before ('\\' :: (name ++ star ++ tail)) = some (name, tail) := by
  have hcommand : Markup.command? name ('\\' :: (name ++ star ++ tail)) = some (star ++ tail) :=
    Text.dropPrefix?_eq_some_iff.mpr (by simp)
  have hstarred : (Markup.star (star ++ tail)).2 = tail := by
    rcases hstar with rfl | rfl
    · unfold Markup.star
      split
      · rename_i hhead
        rw [List.nil_append] at hhead
        rw [hhead] at htail
        exact absurd rfl htail
      · rfl
    · rfl
  cases hfound : command before ('\\' :: (name ++ star ++ tail)) with
  | none =>
    have hnone := List.findSome?_eq_none_iff.mp hfound name hname
    simp only [hcommand, Option.bind_some, hstarred, hends, if_true] at hnone
    cases hnone
  | some found =>
    obtain ⟨name', after⟩ := found
    -- the name is all letters behind the backslash, so that no other one is read
    obtain ⟨hname', star', -, ht, hends'⟩ := command_spec hfound
    have hends'' : Markup.nameEnds (star ++ tail) := by
      rcases hstar with rfl | rfl
      · exact hends
      · rfl
    have hsame : name' = name := by
      obtain ⟨-, htail⟩ := List.cons.inj ht
      rw [← Markup.takeWhile_of_nameEnds (isAsciiLetter_of_mem hname') hends',
        ← List.append_assoc, ← htail, List.append_assoc,
        Markup.takeWhile_of_nameEnds (isAsciiLetter_of_mem hname) hends'']
    subst hsame
    obtain ⟨name'', -, hread⟩ := List.exists_of_findSome?_eq_some hfound
    obtain ⟨afterName, hcommand', hread⟩ := Option.bind_eq_some_iff.mp hread
    have hsame' : name'' = name' := by
      dsimp only at hread
      split at hread
      · cases hread
        rfl
      · split at hread
        · cases hread
          rfl
        · cases hread
    subst hsame'
    rw [hcommand] at hcommand'
    cases hcommand'
    simp only [hstarred, hends, if_true] at hread
    exact hread.symm

/-! ### Citations -/

namespace Reads

variable {t name name' keys keys' rest rest' : Text} {given given' : List Text}

/-- **What the readers find of a citation.** -/
theorem command_notes (h : Reads t name given keys rest) (before : Text) :
    ∃ tail, command before t = some (name, tail) ∧ ∃ behind,
      notes 2 tail = (given.map Text.strip, behind) ∧ Notes 2 tail given behind ∧
      Follows '{' '}' behind keys rest := by
  obtain ⟨hname, star, tail, behind, hstar, rfl, hnotes, hkeys⟩ := h
  refine ⟨tail, ?_, behind, notes_eq hnotes hkeys, hnotes, hkeys⟩
  obtain ⟨c, tail, rfl, hc⟩ := hnotes.exists_cons hkeys
  have hother : Text.isAsciiLetter c = false ∧ c ≠ '*' := by
    rcases hc with (rfl | rfl | rfl | rfl) | rfl | rfl <;> decide
  exact command_eq_some hname hstar (by simp [Markup.nameEnds, hother.1])
    (by simpa using hother.2) before

/-- **A citation is read in one way only.** -/
theorem unique (h : Reads t name given keys rest) (h' : Reads t name' given' keys' rest') :
    name = name' ∧ given = given' ∧ keys = keys' ∧ rest = rest' := by
  obtain ⟨tail, hcommand, behind, -, hnotes, hkeys⟩ := h.command_notes []
  obtain ⟨tail', hcommand', behind', -, hnotes', hkeys'⟩ := h'.command_notes []
  obtain ⟨rfl, rfl⟩ := Prod.mk.inj (Option.some.inj (hcommand.symm.trans hcommand'))
  obtain ⟨rfl, rfl⟩ := hnotes.unique hkeys hnotes' hkeys'
  obtain ⟨rfl, rfl⟩ := follows_braces_unique hkeys hkeys'
  exact ⟨rfl, rfl, rfl, rfl⟩

end Reads

/-- A citation is read where its command, its notes and its keys are. -/
theorem exists_reads {before t name tail keys rest : Text}
    (h : command before t = some (name, tail))
    (hkeys : Group.braces? (Group.skipSpaces (notes 2 tail).2) = some (keys, rest)) :
    ∃ given, (notes 2 tail).1 = given.map Text.strip ∧ Reads t name given keys rest := by
  obtain ⟨hname, star, hstar, ht, -⟩ := command_spec h
  obtain ⟨given, hgiven, hnotes⟩ := exists_notes 2 tail
  exact ⟨given, hgiven, hname, star, tail, _, hstar, ht, hnotes,
    Group.braces?_skipSpaces_eq_some_iff.mp hkeys⟩

theorem Reads.behind {t name keys rest : Text} {given : List Text}
    (h : Reads t name given keys rest) : Text.Behind rest t := by
  obtain ⟨tail, hcommand, behind, hnotes, -, hkeys⟩ := h.command_notes []
  have hbehind : behind <:+ tail := by
    have hsuffix := notes_suffix 2 tail
    rwa [hnotes] at hsuffix
  have hrest := Group.read?_skipSpaces_behind (Group.braces?_skipSpaces_eq_some_iff.mpr hkeys)
  exact hrest.trans_suffix (hbehind.trans (advances_command _ _ _ _ hcommand).1)

namespace IsCitation

variable {text : Text} {c c' : Written}

theorem start_lt (h : IsCitation text c) : c.start < c.stop := by
  have hlength := h.reads.behind.2
  have := h.ends
  simp only [List.length_drop] at hlength
  omega

theorem start_le_length (h : IsCitation text c) : c.start ≤ text.length :=
  (Nat.le_of_lt h.start_lt).trans h.ends

theorem eq_of_start (h : IsCitation text c) (h' : IsCitation text c')
    (hstart : c.start = c'.start) : c = c' := by
  obtain ⟨hname, hnotes, hkeys, hrest⟩ := h.reads.unique (hstart ▸ h'.reads)
  have hlength := congrArg List.length hrest
  have hends := h.ends
  have hends' := h'.ends
  rw [List.length_drop, List.length_drop] at hlength
  have hstop : c.stop = c'.stop := by omega
  cases c
  cases c'
  exact Written.mk.injEq .. ▸ ⟨hstart, hstop, hname, hnotes, hkeys⟩

end IsCitation

theorem AreCitations.pairwise_lt {text : Text} {citations : List Written}
    (h : AreCitations text citations) :
    citations.Pairwise fun a b => a.start < b.start := by
  refine h.apart.imp_of_mem ?_
  intro a b ha _ hab
  exact Nat.lt_of_lt_of_le (h.each a ha).start_lt hab

theorem AreCitations.subset {text : Text} {citations citations' : List Written}
    (h : AreCitations text citations) (h' : AreCitations text citations') {c : Written}
    (hmem : c ∈ citations) : c ∈ citations' := by
  have hc := h.each c hmem
  obtain ⟨c', hmem', hle, hlt⟩ := h'.leftmost c hc
  rcases Nat.eq_or_lt_of_le hle with hstart | hstart
  · exact (h'.each c' hmem').eq_of_start hc hstart ▸ hmem'
  · -- the citation that covers the place is one of the first list as well, but these are apart
    have hne : c' ≠ c := by
      rintro rfl
      exact Nat.lt_irrefl _ hstart
    have := hc.start_lt
    rcases apart_of_pairwise h.apart (h'.subset h hmem') hmem hne with hbefore | hbehind <;> omega
termination_by c.start

/-- **A text determines its citations.** -/
theorem AreCitations.unique {text : Text} {citations citations' : List Written}
    (h : AreCitations text citations) (h' : AreCitations text citations') :
    citations = citations' := by
  have hperm : citations.Perm citations' := by
    refine (List.perm_ext_iff_of_nodup (h.pairwise_lt.imp ?_) (h'.pairwise_lt.imp ?_)).mpr
      fun c => ⟨h.subset h', h'.subset h⟩
    · rintro a b hab rfl
      exact Nat.lt_irrefl _ hab
    · rintro a b hab rfl
      exact Nat.lt_irrefl _ hab
  refine hperm.eq_of_pairwise ?_ h.pairwise_lt h'.pairwise_lt
  intro a b _ _ hab hba
  exact absurd hba (Nat.lt_asymm hab)

end TexMark.Citation
