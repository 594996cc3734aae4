/-
  TexMark/Proofs/Readers.lean
  ===========================
  **Readers only go forward.**  A reader answers what it found at the head of a text and what
  follows that.  What follows is always an end of the text (`<:+`), and a proper one where the
  reader takes a command, a group or another mark (`Text.Behind`).  So a recogniser of such
  constructs never stands still, and its hits take some characters each
  (`Scan.lt_stop_of_mem_hits`).
-/
import TexMark.Citation
import TexMark.Definition
import TexMark.Delimiter
import TexMark.Environment.Token
import TexMark.Reference
import TexMark.Sizing
import Mathlib.Data.List.Infix
import Mathlib.Data.List.TakeWhile

namespace TexMark

/-- What follows when at least one character has been taken from the head of a text. -/
def Text.Behind (rest t : Text) : Prop := rest <:+ t ∧ rest.length < t.length

namespace Text.Behind

variable {rest middle t : Text}

theorem trans_suffix (h : Behind rest middle) (ht : middle <:+ t) : Behind rest t :=
  ⟨h.1.trans ht, Nat.lt_of_lt_of_le h.2 ht.length_le⟩

theorem suffix_trans (h : rest <:+ middle) (ht : Behind middle t) : Behind rest t :=
  ⟨h.trans ht.1, Nat.lt_of_le_of_lt h.length_le ht.2⟩

theorem trans (h : Behind rest middle) (ht : Behind middle t) : Behind rest t :=
  suffix_trans h.1 ht

theorem ne_nil (h : Behind rest t) : t ≠ [] := List.ne_nil_of_length_pos (Nat.zero_lt_of_lt h.2)

theorem cons {c : Char} (h : rest <:+ t) : Behind rest (c :: t) :=
  ⟨h.trans (List.suffix_cons c t), Nat.lt_succ_of_le h.length_le⟩

end Text.Behind

open Text (Behind)

/-- A number is told by how it is written. -/
theorem Text.ofNat_injective {m n : Nat} (h : ofNat m = ofNat n) : m = n := by
  have hread := congrArg (fun digits => Nat.ofDigitChars 10 digits 0) h
  simpa [ofNat, Nat.ofDigitChars_toDigits] using hread

/-! ### Commands and groups -/

theorem Text.skipBlanks_suffix (t : Text) : skipBlanks t <:+ t := List.dropWhile_suffix _

/-- What stops a run is not of its class. -/
theorem Text.head?_dropWhile {inside : Char → Bool} {t : Text} {c : Char}
    (h : c ∈ (t.dropWhile inside).head?) : ¬ inside c := by
  have hstop := List.head?_dropWhile_not inside t
  rw [Option.mem_def.mp h] at hstop
  simpa using hstop

theorem Text.ne_backslash_of_isAsciiLetter {c : Char} (h : isAsciiLetter c) : c ≠ '\\' := by
  rintro rfl
  revert h
  decide

namespace Markup

variable {t rest : Text}

theorem command?_behind {name : Text} (h : command? name t = some rest) : Behind rest t := by
  have ht : t = '\\' :: name ++ rest := Text.dropPrefix?_eq_some_iff.mp h
  rw [ht]
  exact .cons (List.suffix_append name rest)

theorem word?_behind {name : Text} (h : word? name t = some rest) : Behind rest t :=
  command?_behind (Option.filter_eq_some_iff.mp h).1

/-- A name is all the letters behind its backslash. -/
theorem takeWhile_of_nameEnds {name : Text} (hname : ∀ c ∈ name, Text.isAsciiLetter c)
    (ht : nameEnds t) : (name ++ t).takeWhile Text.isAsciiLetter = name := by
  rw [List.takeWhile_append_of_pos hname]
  cases t with
  | nil => simp
  | cons c t =>
    have hc : Text.isAsciiLetter c = false := by simpa [nameEnds] using ht
    simp [hc]

theorem char?_eq_some_iff {c : Char} : char? c t = some rest ↔ t = c :: rest := by
  cases t with
  | nil => simp [char?]
  | cons d t =>
    by_cases h : d = c
    · simp [char?, h]
    · simp [char?, h]

theorem char?_behind {c : Char} (h : char? c t = some rest) : Behind rest t := by
  rw [char?_eq_some_iff.mp h]
  exact .cons (List.suffix_refl _)

theorem oneOf?_behind {names : List Text} {name : Text}
    (h : oneOf? names t = some (name, rest)) : Behind rest t := by
  obtain ⟨_, _, hname⟩ := List.exists_of_findSome?_eq_some h
  obtain ⟨_, hcommand, heq⟩ := Option.map_eq_some_iff.mp hname
  cases heq
  exact command?_behind hcommand

theorem star_suffix (t : Text) : (star t).2 <:+ t := by
  unfold star
  split
  · exact List.suffix_cons _ _
  · exact List.suffix_refl _

theorem flatBraces?_eq_some_iff {inner : Text} : flatBraces? t = some (inner, rest) ↔
    t = '{' :: (inner ++ '}' :: rest) ∧ ∀ c ∈ inner, c ≠ '{' ∧ c ≠ '}' := by
  simp only [flatBraces?, run, Option.bind_eq_bind, Option.pure_def, Option.bind_eq_some_iff,
    Option.some.injEq, Prod.mk.injEq, char?_eq_some_iff]
  constructor
  · rintro ⟨opened, rfl, closed, hclosed, rfl, rfl⟩
    refine ⟨?_, ?_⟩
    · rw [← hclosed, List.takeWhile_append_dropWhile]
    · intro c hc
      simpa using List.mem_takeWhile_imp hc
  · rintro ⟨rfl, hinner⟩
    have hall : ∀ c ∈ inner, (c != '{' && c != '}') = true := by
      intro c hc
      simpa using hinner c hc
    refine ⟨_, rfl, rest, ?_, ?_, rfl⟩
    · rw [List.dropWhile_append_of_pos hall]
      rfl
    · rw [List.takeWhile_append_of_pos hall]
      simp

theorem flatBraces?_behind {inner : Text} (h : flatBraces? t = some (inner, rest)) :
    Behind rest t := by
  rw [(flatBraces?_eq_some_iff.mp h).1]
  exact .cons ((List.suffix_cons '}' rest).trans (List.suffix_append inner _))

theorem brace_suffix_of_flatBraces? {inner : Text} (h : flatBraces? t = some (inner, rest)) :
    '}' :: rest <:+ t := by
  rw [(flatBraces?_eq_some_iff.mp h).1]
  exact (List.suffix_append inner _).trans (List.suffix_cons _ _)

theorem bracket_suffix_of_flatBrackets? {inner : Text} (h : flatBrackets? t = some (inner, rest)) :
    ']' :: rest <:+ t := by
  simp only [flatBrackets?, run, Option.bind_eq_bind, Option.pure_def, Option.bind_eq_some_iff,
    Option.some.injEq, Prod.mk.injEq, char?_eq_some_iff] at h
  obtain ⟨opened, rfl, closed, hclosed, -, rfl⟩ := h
  rw [← hclosed]
  exact (List.dropWhile_suffix _).trans (List.suffix_cons '[' opened)

theorem flatBrackets?_behind {inner : Text} (h : flatBrackets? t = some (inner, rest)) :
    Behind rest t :=
  .trans_suffix (.cons (List.suffix_refl rest)) (bracket_suffix_of_flatBrackets? h)

theorem controlSequence?_behind {name : Text} (h : controlSequence? t = some (name, rest)) :
    Behind rest t := by
  unfold controlSequence? at h
  split at h
  · split at h
    · cases h
      exact .cons (List.dropWhile_suffix _)
    · split at h
      · cases h
      · cases h
        exact .cons (List.suffix_cons _ _)
  · cases h

end Markup

namespace Group

theorem read?_behind {opener closer : Char} {t inner rest : Text}
    (h : read? opener closer t = some (inner, rest)) : Behind rest t := by
  rw [eq_of_read?_eq_some h]
  exact .cons ((List.suffix_cons closer rest).trans (List.suffix_append inner _))

theorem skipSpacesFrom_suffix (broken : Bool) (t : Text) : skipSpacesFrom broken t <:+ t := by
  induction t generalizing broken with
  | nil => exact List.suffix_refl _
  | cons c t ih =>
    unfold skipSpacesFrom
    split
    · split
      · exact List.suffix_refl _
      · exact (ih true).trans (List.suffix_cons c t)
    · split
      · exact (ih broken).trans (List.suffix_cons c t)
      · exact List.suffix_refl _

theorem skipSpaces_suffix (t : Text) : skipSpaces t <:+ t := skipSpacesFrom_suffix false t

/-- A group behind blanks. -/
theorem read?_skipSpaces_behind {opener closer : Char} {t inner rest : Text}
    (h : read? opener closer (skipSpaces t) = some (inner, rest)) : Behind rest t :=
  (read?_behind h).trans_suffix (skipSpaces_suffix t)

end Group

/-! ### Macros and their definitions -/

namespace Macro

theorem arguments_suffix (count : Nat) (t : Text) : (arguments count t).2 <:+ t := by
  induction count generalizing t with
  | zero => exact List.suffix_refl _
  | succ count ih =>
    rw [arguments]
    split
    · exact List.suffix_refl _
    · rename_i harg
      exact (ih _).trans (Group.read?_skipSpaces_behind harg).1

theorem argumentsOf_suffix (m : Macro) (t : Text) : (m.argumentsOf t).2 <:+ t := by
  unfold argumentsOf
  cases m.default? with
  | none => exact arguments_suffix m.arity t
  | some value =>
    cases hfirst : Group.brackets? (Group.skipSpaces t) with
    | none => exact arguments_suffix _ t
    | some first =>
      exact (arguments_suffix _ _).trans (Group.read?_skipSpaces_behind hfirst).1

end Macro

namespace Definition

variable {t rest : Text}

theorem name?_behind {name : Text} (h : name? t = some (name, rest)) : Behind rest t := by
  unfold name? at h
  split at h
  · obtain ⟨⟨inner, after⟩, hgroup, heq⟩ := Option.map_eq_some_iff.mp h
    cases heq
    exact Group.read?_behind hgroup
  · exact Markup.controlSequence?_behind h

theorem optional?_suffix {group : Option Text} (h : optional? t = some (group, rest)) :
    rest <:+ t := by
  unfold optional? at h
  split at h
  · obtain ⟨⟨inner, after⟩, hgroup, heq⟩ := Option.map_eq_some_iff.mp h
    cases heq
    exact (Group.skipSpaces_suffix after).trans (Group.read?_behind hgroup).1
  · cases h
    exact List.suffix_refl _

theorem parameters_suffix (t : Text) : (parameters t).2 <:+ t := by
  fun_induction parameters t with
  | case1 c rest _ n after heq ih =>
    rw [heq] at ih
    exact ih.trans ((List.suffix_cons c rest).trans (List.suffix_cons '#' _))
  | case2 => exact List.suffix_refl _
  | case3 => exact List.suffix_refl _

theorem newcommand?_behind {draft : Draft} (h : newcommand? t = some (draft, rest)) :
    Behind rest t := by
  simp only [newcommand?, Option.bind_eq_bind, Option.pure_def, Option.bind_eq_some_iff] at h
  obtain ⟨⟨name, afterName⟩, hname, ⟨arity, afterArity⟩, harity, h⟩ := h
  -- the body follows the default, if there is one
  have hbody : ∃ afterDefault body, afterDefault <:+ afterArity ∧
      Group.braces? afterDefault = some (body, rest) := by
    split at h <;> simp only [Option.bind_some, Option.bind_eq_some_iff] at h
    · obtain ⟨⟨default?, afterDefault⟩, hdefault, ⟨body, after⟩, hbody, heq⟩ := h
      cases heq
      exact ⟨afterDefault, body, optional?_suffix hdefault, hbody⟩
    · obtain ⟨⟨body, after⟩, hbody, heq⟩ := h
      cases heq
      exact ⟨afterArity, body, List.suffix_refl _, hbody⟩
  obtain ⟨afterDefault, body, hdefault, hbody⟩ := hbody
  have harity' : afterArity <:+ afterName :=
    (optional?_suffix harity).trans (Group.skipSpaces_suffix _)
  exact ((Group.read?_behind hbody).trans_suffix (hdefault.trans harity')).trans
    ((name?_behind hname).trans_suffix (Group.skipSpaces_suffix t))

theorem plain?_behind {draft : Draft} (h : plain? t = some (draft, rest)) : Behind rest t := by
  simp only [plain?, Option.bind_eq_bind, Option.pure_def, Option.bind_eq_some_iff,
    Option.some.injEq, Prod.mk.injEq] at h
  obtain ⟨⟨name, afterName⟩, hname, ⟨body, after⟩, hbody, -, rfl⟩ := h
  exact ((Group.read?_skipSpaces_behind hbody).trans_suffix (parameters_suffix _)).trans
    ((Markup.controlSequence?_behind hname).trans_suffix (Group.skipSpaces_suffix t))

theorem operator?_behind {starred : Bool} {draft : Draft}
    (h : operator? starred t = some (draft, rest)) : Behind rest t := by
  simp only [operator?, Option.bind_eq_bind, Option.pure_def, Option.bind_eq_some_iff,
    Option.some.injEq, Prod.mk.injEq] at h
  obtain ⟨⟨name, afterName⟩, hname, ⟨label, after⟩, hlabel, -, rfl⟩ := h
  exact (Group.read?_skipSpaces_behind hlabel).trans
    ((name?_behind hname).trans_suffix (Group.skipSpaces_suffix t))

theorem draft?_behind {head : Head} {draft : Draft} (h : draft? head t = some (draft, rest)) :
    Behind rest t := by
  cases head with
  | newcommand => exact newcommand?_behind h
  | renewcommand => exact newcommand?_behind h
  | providecommand => exact newcommand?_behind h
  | operator starred => exact operator?_behind h
  | def_ => exact plain?_behind h

end Definition

/-! ### Citations -/

theorem Citation.notes_suffix (count : Nat) (t : Text) : (notes count t).2 <:+ t := by
  induction count generalizing t with
  | zero => exact List.suffix_refl _
  | succ count ih =>
    rw [notes]
    split
    · exact List.suffix_refl _
    · rename_i hnote
      exact (ih _).trans (Group.read?_skipSpaces_behind hnote).1

/-! ### Declarations of theorems -/

namespace NewTheorem

theorem nonempty?_eq_some {group : Option (Text × Text)} {g : Text × Text}
    (h : nonempty? group = some g) : group = some g := (Option.filter_eq_some_iff.mp h).1

theorem read?_behind {t rest : Text} {command : NewTheorem} (h : read? t = some (command, rest)) :
    Behind rest t := by
  simp only [read?, Option.bind_eq_bind, Option.bind_eq_some_iff] at h
  obtain ⟨afterCommand, hcommand, ⟨name, afterName⟩, hname, ⟨heading, afterHeading⟩,
    hheading, hrest⟩ := h
  have hafterName : Behind afterName t :=
    (Markup.flatBraces?_behind (nonempty?_eq_some hname)).trans_suffix
      ((Text.skipBlanks_suffix _).trans ((Markup.star_suffix _).trans
        (Markup.command?_behind hcommand).1))
  have hafterHeading : Behind afterHeading t := by
    have hbehind := Markup.flatBraces?_behind (nonempty?_eq_some hheading)
    split at hbehind
    · rename_i hshared
      exact (hbehind.trans_suffix ((Text.skipBlanks_suffix _).trans
        ((Markup.flatBrackets?_behind (nonempty?_eq_some hshared)).1.trans
          (Text.skipBlanks_suffix _)))).trans hafterName
    · exact (hbehind.trans_suffix (Text.skipBlanks_suffix _)).trans hafterName
  split at hrest
  · rename_i hwithin
    cases hrest
    exact ((Markup.flatBrackets?_behind (nonempty?_eq_some hwithin)).trans_suffix
      (Text.skipBlanks_suffix _)).trans hafterHeading
  · cases hrest
    exact hafterHeading

end NewTheorem

/-! ### Recognisers -/

namespace Scan

variable {α : Type} {read : Recognizer α}

/-- A recogniser **advances** if it takes some characters wherever it finds its construct. -/
def Advances (read : Recognizer α) : Prop :=
  ∀ before rest value after, read before rest = some (value, after) → Behind after rest

/-- Where a hit begins in the rest of a text, its construct is found. -/
theorem read_of_mem_hitsFrom {pos : Nat} {before : Text} {skip : Nat} {t : Text} {h : Hit α}
    (hmem : h ∈ hitsFrom read pos before skip t) :
    ∃ passed rest after, t = passed ++ rest ∧ h.start = pos + passed.length ∧
      read (passed.reverse ++ before) rest = some (h.value, after) ∧
      h.stop = h.start + (rest.length - after.length) := by
  induction t generalizing pos before skip with
  | nil => simp [hitsFrom] at hmem
  | cons c t ih =>
    -- a hit behind the first character
    have later : ∀ {skip'}, h ∈ hitsFrom read (pos + 1) (c :: before) skip' t →
        ∃ passed rest after, c :: t = passed ++ rest ∧ h.start = pos + passed.length ∧
          read (passed.reverse ++ before) rest = some (h.value, after) ∧
          h.stop = h.start + (rest.length - after.length) := by
      intro skip' hlater
      obtain ⟨passed, rest, after, rfl, hstart, hread, hstop⟩ := ih hlater
      refine ⟨c :: passed, rest, after, rfl, ?_, by simpa using hread, hstop⟩
      rw [hstart, List.length_cons]
      omega
    cases skip with
    | succ skip => exact later (by simpa [hitsFrom] using hmem)
    | zero =>
      rw [hitsFrom] at hmem
      split at hmem
      · exact later hmem
      · rename_i value after hread
        rcases List.mem_cons.mp hmem with rfl | hmem
        · exact ⟨[], c :: t, after, rfl, rfl, hread, rfl⟩
        · exact later hmem

/-- **What a hit says.**  At its start the recogniser reads its value, and its stop is where
    the rest begins. -/
theorem hit_spec (hread : Advances read) {text : Text} {h : Hit α} (hmem : h ∈ hits read text) :
    read (text.take h.start).reverse (text.drop h.start) = some (h.value, text.drop h.stop) ∧
      h.start < h.stop ∧ h.stop ≤ text.length := by
  obtain ⟨passed, rest, after, rfl, hstart, hvalue, hstop⟩ := read_of_mem_hitsFrom hmem
  obtain ⟨⟨taken, rfl⟩, hlt⟩ := hread _ _ _ _ hvalue
  simp only [List.length_append] at hlt hstop
  have hstart' : h.start = passed.length := by omega
  have hstop' : h.stop = (passed ++ taken).length := by
    rw [List.length_append]
    omega
  refine ⟨?_, ?_, ?_⟩
  · rw [hstart', List.take_left, List.drop_left, hstop', ← List.append_assoc, List.drop_left]
    simpa using hvalue
  · rw [hstart', hstop', List.length_append]
    omega
  · rw [hstop', ← List.append_assoc]
    exact (List.prefix_append _ after).length_le

end Scan

/-- A star behind a command. -/
theorem Definition.starred_behind (head : Bool → Head) {name t after : Text} {value : Head}
    (h : (Markup.command? name t).map (fun rest => (head (Markup.star rest).1,
      (Markup.star rest).2)) = some (value, after)) : Behind after t := by
  obtain ⟨rest, hrest, heq⟩ := Option.map_eq_some_iff.mp h
  cases heq
  exact Text.Behind.suffix_trans (Markup.star_suffix rest) (Markup.command?_behind hrest)

theorem Definition.advances_head : Scan.Advances head := by
  intro before rest value after h
  simp only [head, Option.orElse_eq_orElse, Option.orElse_eq_or, Option.or_eq_some_iff] at h
  rcases h with h | ⟨-, h | ⟨-, h | ⟨-, h | ⟨-, h⟩⟩⟩⟩
  · exact starred_behind (fun _ => .newcommand) h
  · exact starred_behind (fun _ => .renewcommand) h
  · exact starred_behind (fun _ => .providecommand) h
  · exact starred_behind .operator h
  · obtain ⟨t, ht, heq⟩ := Option.map_eq_some_iff.mp h
    cases heq
    exact Markup.word?_behind ht

theorem Macro.advances_invocation (m : Macro) : Scan.Advances m.invocation := by
  intro before rest value after h
  obtain ⟨t, ht, heq⟩ := Option.map_eq_some_iff.mp h
  cases heq
  exact Markup.word?_behind ht

theorem Citation.advances_command : Scan.Advances command := by
  intro before rest value after h
  obtain ⟨name, _, hname⟩ := List.exists_of_findSome?_eq_some h
  obtain ⟨afterName, hafterName, hstarred⟩ := Option.bind_eq_some_iff.mp hname
  have hbehind := Markup.command?_behind hafterName
  have hstar := Markup.star_suffix afterName
  rcases Markup.star afterName with ⟨starred, afterStar⟩
  simp only at hstarred hstar
  split at hstarred
  · cases hstarred
    exact Text.Behind.suffix_trans hstar hbehind
  · split at hstarred
    · cases hstarred
      exact hbehind
    · cases hstarred

theorem Reference.advances_command : Scan.Advances command := by
  intro before rest value after h
  simp only [command, Option.bind_eq_bind, Option.pure_def, Option.bind_eq_some_iff,
    Option.some.injEq, Prod.mk.injEq] at h
  obtain ⟨⟨name, afterName⟩, hname, ⟨label, rest'⟩, hlabel, -, rfl⟩ := h
  exact (Markup.flatBraces?_behind hlabel).trans_suffix ((Text.skipBlanks_suffix _).trans
    ((Markup.star_suffix _).trans (Markup.oneOf?_behind hname).1))

/-- Delimiters are found by tokens none of which is empty. -/
theorem Delimiter.advances_token {tokens : List Text} (htokens : [] ∉ tokens) :
    Scan.Advances (token tokens) := by
  intro before rest value after h
  obtain ⟨t, ht, hfound⟩ := List.exists_of_findSome?_eq_some h
  obtain ⟨rest', hrest, heq⟩ := Option.map_eq_some_iff.mp hfound
  cases heq
  rw [Text.dropPrefix?_eq_some_iff.mp hrest]
  cases value with
  | nil => exact absurd ht htokens
  | cons c value => exact .cons (List.suffix_append value after)

namespace Sizing

theorem delimiter?_suffix {t delimiter after : Text} (h : delimiter? t = some (delimiter, after)) :
    after <:+ t := by
  unfold delimiter? at h
  split at h
  · cases h
  · split at h
    · cases h
    · split at h
      · cases h
        exact (List.dropWhile_suffix _).trans (List.suffix_cons _ _)
      · split at h
        · cases h
        · cases h
          exact (List.suffix_cons _ _).trans (List.suffix_cons _ _)
  · split at h
    · cases h
    · cases h
      exact List.suffix_cons _ _

theorem advances_sized : Scan.Advances sized := by
  intro before rest value after h
  simp only [sized, Option.orElse_eq_orElse, Option.orElse_eq_or, Option.or_eq_some_iff,
    Option.bind_eq_bind, Option.pure_def, Option.bind_eq_some_iff, Option.some.injEq,
    Prod.mk.injEq] at h
  rcases h with ⟨t, ht, ⟨delimiter, rest'⟩, hdelimiter, -, rfl⟩ |
    ⟨-, t, ht, ⟨delimiter, rest'⟩, hdelimiter, -, rfl⟩
  all_goals
    exact Text.Behind.suffix_trans
      ((delimiter?_suffix hdelimiter).trans (Text.skipBlanks_suffix t)) (Markup.word?_behind ht)

end Sizing

namespace Environment

variable {t rest : Text}

theorem bracedName?_behind {name : Text} (h : bracedName? t = some (name, rest)) :
    Behind rest t := by
  simp only [bracedName?, Option.bind_eq_bind, Option.bind_eq_some_iff,
    Option.ite_none_left_eq_some, Option.some.injEq, Prod.mk.injEq] at h
  obtain ⟨opened, hopened, closed, hclosed, -, -, rfl⟩ := h
  exact ((Markup.char?_behind hclosed).trans_suffix ((Text.skipBlanks_suffix _).trans
    ((List.dropWhile_suffix _).trans (Text.skipBlanks_suffix _)))).trans
      ((Markup.char?_behind hopened).trans_suffix (Text.skipBlanks_suffix t))

theorem section?_behind {starred : Bool} (h : section? t = some (starred, rest)) :
    Behind rest t := by
  simp only [section?, Option.bind_eq_bind, Option.bind_eq_some_iff,
    Option.ite_none_right_eq_some, Option.some.injEq, Prod.mk.injEq] at h
  obtain ⟨afterCommand, hcommand, -, -, rfl⟩ := h
  exact Text.Behind.suffix_trans ((Text.skipBlanks_suffix _).trans (Markup.star_suffix _))
    (Markup.command?_behind hcommand)

theorem declaration?_behind (h : declaration? t = some rest) : Behind rest t := by
  simp only [declaration?, Option.bind_eq_bind, Option.bind_eq_some_iff] at h
  obtain ⟨afterCommand, hcommand, h⟩ := h
  exact (Markup.char?_behind h).trans (Text.Behind.suffix_trans
    ((Text.skipBlanks_suffix _).trans (Markup.star_suffix _)) (Markup.command?_behind hcommand))

theorem advances_token : Scan.Advances token := by
  intro before rest value after h
  simp only [token, Option.orElse_eq_orElse, Option.orElse_eq_or, Option.or_eq_some_iff,
    Option.map_eq_some_iff, Option.bind_eq_some_iff, Prod.mk.injEq] at h
  rcases h with ⟨⟨name, after'⟩, ⟨t, ht, hname⟩, -, rfl⟩ |
    ⟨-, ⟨⟨name, after'⟩, ⟨t, ht, hname⟩, -, rfl⟩ |
      ⟨-, ⟨⟨starred, after'⟩, hsection, -, rfl⟩ | ⟨-, after', hdeclaration, -, rfl⟩⟩⟩
  · exact (bracedName?_behind hname).trans (Markup.command?_behind ht)
  · exact (bracedName?_behind hname).trans (Markup.command?_behind ht)
  · exact section?_behind hsection
  · exact declaration?_behind hdeclaration

end Environment

end TexMark
