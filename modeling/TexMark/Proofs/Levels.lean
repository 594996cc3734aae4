/-
  TexMark/Proofs/Levels.lean
  ==========================
  **Levels along a text.**  Every opening character that is not escaped opens a level, and every
  closing one closes the last of them.  How many levels are open behind a text is told piece by
  piece (`level_append`), so that pieces with the same effect may take each other's place:

    * `isContent_iff_level` — a text may stand in a group if it leaves the levels as they are;
    * `exists_ends_iff_level` — a group ends where one level too many is closed;
    * `ends_append_iff`, `ends_append_of_level` — a group ends in the first piece of a text, or it
      goes on behind it.
-/
import TexMark.Proofs.Groups
import TexMark.Proofs.Lines

namespace TexMark.Group

open Scan (escapedBehind)

/-! ### One character -/

/-- How many levels are open behind a character; nothing if it closes one that is not open. -/
def step (opener closer : Char) (depth : Nat) (c : Char) : Option Nat :=
  if c = opener then some (depth + 1)
  else if c = closer then if depth = 0 then none else some (depth - 1)
  else some depth

/-- How many levels are **open** behind a text with `depth` levels in front of it; nothing if one
    too many is closed. -/
def level (opener closer : Char) (depth : Nat) (t : Text) : Option Nat :=
  (unescaped t).foldlM (step opener closer) depth

/-- A character that neither opens nor closes a level, nor escapes one that does. -/
def IsPlain (opener closer c : Char) : Prop := c ≠ '\\' ∧ c ≠ opener ∧ c ≠ closer

variable {opener closer c : Char} {depth depth' : Nat} {s t v inner : Text}

theorem step_opener : step opener closer depth opener = some (depth + 1) := if_pos rfl

theorem step_closer (hne : opener ≠ closer) :
    step opener closer (depth + 1) closer = some depth := by
  simp [step, hne.symm]

theorem step_closer_zero (hne : opener ≠ closer) : step opener closer 0 closer = none := by
  simp [step, hne.symm]

theorem step_of_ne (hopener : c ≠ opener) (hcloser : c ≠ closer) :
    step opener closer depth c = some depth := by
  simp [step, hopener, hcloser]

theorem step_add (h : step opener closer depth c = some depth') (more : Nat) :
    step opener closer (depth + more) c = some (depth' + more) := by
  by_cases hopener : c = opener
  · subst hopener
    rw [step_opener] at h ⊢
    cases h
    rw [Nat.add_right_comm]
  · by_cases hcloser : c = closer
    · subst hcloser
      have hne := Ne.symm hopener
      cases depth with
      | zero =>
        rw [step_closer_zero hne] at h
        cases h
      | succ depth =>
        rw [step_closer hne] at h
        cases h
        rw [Nat.add_right_comm, step_closer hne]
    · rw [step_of_ne hopener hcloser] at h ⊢
      cases h
      rfl

/-! ### Pieces -/

/-- What is not escaped in two pieces, if no backslash is open between them. -/
theorem unescaped_append (hs : escapedBehind false s = false) (t : Text) :
    unescaped (s ++ t) = unescaped s ++ unescaped t := by
  fun_induction unescaped s with
  | case1 => rfl
  | case2 => cases hs
  | case3 c s ih =>
    exact ih (by simpa using hs)
  | case4 c s hlone hpair ih =>
    have hc : c ≠ '\\' := by
      intro hc
      cases s with
      | nil => exact hlone hc rfl
      | cons d s => exact hpair d s hc rfl
    rw [List.cons_append, unescaped_cons hc, ih, List.cons_append]
    rwa [Scan.escapedBehind_cons, beq_false_of_ne hc, Bool.false_and] at hs

@[simp] theorem level_nil : level opener closer depth [] = some depth := rfl

theorem level_pair : level opener closer depth ('\\' :: c :: t) = level opener closer depth t := rfl

theorem level_cons (hc : c ≠ '\\') : level opener closer depth (c :: t) =
    (step opener closer depth c).bind fun d => level opener closer d t := by
  rw [level, unescaped_cons hc, List.foldlM_cons]
  rfl

/-- **Levels are told piece by piece.** -/
theorem level_append (hs : escapedBehind false s = false) (t : Text) :
    level opener closer depth (s ++ t) =
      (level opener closer depth s).bind fun d => level opener closer d t := by
  rw [level, unescaped_append hs, List.foldlM_append]
  rfl

theorem level_cons_of_isPlain (hc : IsPlain opener closer c) (t : Text) :
    level opener closer depth (c :: t) = level opener closer depth t := by
  rw [level_cons hc.1, step_of_ne hc.2.1 hc.2.2, Option.bind_some]

theorem level_of_isPlain (ht : ∀ c ∈ t, IsPlain opener closer c) :
    level opener closer depth t = some depth := by
  induction t with
  | nil => rfl
  | cons c t ih =>
    obtain ⟨hc, ht⟩ := List.forall_mem_cons.mp ht
    rw [level_cons_of_isPlain hc, ih ht]

/-- A plain character behind a text does not matter, escaped or not. -/
theorem level_concat (hc : IsPlain opener closer c) (s : Text) :
    level opener closer depth (s ++ [c]) = level opener closer depth s := by
  fun_induction unescaped s generalizing depth with
  | case1 => exact level_of_isPlain (List.forall_mem_singleton.mpr hc)
  | case2 => rfl
  | case3 d s ih => exact ih
  | case4 d s hlone hpair ih =>
    have hd : d ≠ '\\' := by
      intro hd
      cases s with
      | nil => exact hlone hd rfl
      | cons e s => exact hpair e s hd rfl
    rw [List.cons_append, level_cons hd, level_cons hd]
    exact Option.bind_congr fun _ _ => ih

theorem level_append_isPlain (hv : ∀ c ∈ v, IsPlain opener closer c) (s : Text) :
    level opener closer depth (s ++ v) = level opener closer depth s := by
  induction v generalizing s with
  | nil => rw [List.append_nil]
  | cons c v ih =>
    obtain ⟨hc, hv⟩ := List.forall_mem_cons.mp hv
    have hsplit : s ++ c :: v = s ++ [c] ++ v := by simp
    rw [hsplit, ih hv, level_concat hc]

/-- Trimming takes away plain characters only. -/
theorem level_strip (hopener : ¬ Text.isBlank opener) (hcloser : ¬ Text.isBlank closer) (t : Text) :
    level opener closer depth (Text.strip t) = level opener closer depth t := by
  have hplain : ∀ c, Text.isBlank c → IsPlain opener closer c := by
    intro c hc
    refine ⟨?_, ?_, ?_⟩ <;> rintro rfl
    · exact absurd hc (by decide)
    · exact hopener hc
    · exact hcloser hc
  obtain ⟨u, v, ht, hu, hv⟩ := Text.exists_strip t
  have hclosed : escapedBehind false u = false :=
    Scan.escapedBehind_of_not_mem fun hmem => absurd (hu _ hmem) (by decide)
  conv_rhs => rw [ht, level_append hclosed, level_of_isPlain fun c hc => hplain c (hu c hc),
    Option.bind_some, level_append_isPlain fun c hc => hplain c (hv c hc)]

/-- Further levels that are open in front of a text stay open. -/
theorem level_add (h : level opener closer depth t = some depth') (more : Nat) :
    level opener closer (depth + more) t = some (depth' + more) := by
  unfold level at h ⊢
  generalize unescaped t = u at h ⊢
  induction u generalizing depth with
  | nil =>
    cases h
    rfl
  | cons c u ih =>
    rw [List.foldlM_cons] at h ⊢
    obtain ⟨middle, hfirst, hrest⟩ := Option.bind_eq_some_iff.mp h
    exact Option.bind_eq_some_iff.mpr ⟨_, step_add hfirst more, ih hrest⟩

/-! ### Balanced texts -/

/-- The levels that a text closes, told by what is not escaped. -/
theorem closes_iff_foldlM (hne : opener ≠ closer) {u : Text} :
    Closes opener closer depth u ↔ u.foldlM (step opener closer) depth = some 0 := by
  induction u generalizing depth with
  | nil =>
    rw [closes_nil_iff]
    exact Option.some_inj.symm
  | cons c u ih =>
    rw [List.foldlM_cons]
    by_cases hopener : c = opener
    · subst hopener
      rw [closes_opener hne, ih, step_opener]
      rfl
    · by_cases hcloser : c = closer
      · subst hcloser
        cases depth with
        | zero =>
          rw [step_closer_zero hne]
          exact ⟨fun h => absurd h (not_closes_closer hne), nofun⟩
        | succ depth =>
          rw [closes_closer hne, ih, step_closer hne]
          rfl
      · rw [closes_of_ne hopener hcloser, ih, step_of_ne hopener hcloser]
        rfl

/-- **A text may stand in a group** if it leaves the levels as they are. -/
theorem isContent_iff_level (hne : opener ≠ closer) : IsContent opener closer t ↔
    level opener closer 0 t = some 0 ∧ escapedBehind false t = false := by
  constructor
  · rintro ⟨hbalanced, hclosed⟩
    exact ⟨(closes_iff_foldlM hne).mp (balanced_iff_closes.mp hbalanced), hclosed⟩
  · rintro ⟨hlevel, hclosed⟩
    exact ⟨balanced_iff_closes.mpr ((closes_iff_foldlM hne).mpr hlevel), hclosed⟩

theorem IsContent.level (hne : opener ≠ closer) (h : IsContent opener closer t) (depth : Nat) :
    level opener closer depth t = some depth := by
  have hlevel := level_add ((isContent_iff_level hne).mp h).1 depth
  rwa [Nat.zero_add] at hlevel

/-- Of a text without escapes, balance alone tells that it leaves the levels as they are. -/
theorem Balanced.level (hne : opener ≠ closer) (ht : '\\' ∉ t) (h : Balanced opener closer t)
    (depth : Nat) : level opener closer depth t = some depth :=
  (isContent_of_not_mem ht h).level hne depth

/-! ### The end of a group -/

section

variable (hne : opener ≠ closer) (hopener : opener ≠ '\\') (hcloser : closer ≠ '\\')

include hne hopener hcloser in
theorem level_group (hinner : IsContent opener closer inner) (t : Text) :
    level opener closer depth (opener :: (inner ++ closer :: t)) =
      level opener closer depth t := by
  rw [level_cons hopener, step_opener, Option.bind_some, level_append hinner.closed,
    hinner.level hne, Option.bind_some, level_cons hcloser, step_closer hne, Option.bind_some]

include hne hcloser in
/-- **A group ends** where one level too many is closed. -/
theorem exists_ends_iff_level :
    (∃ inner, Ends opener closer depth t inner) ↔ level opener closer depth t = none := by
  fun_induction unescaped t generalizing depth with
  | case1 =>
    simp [not_ends_of_short hcloser, level_nil]
  | case2 =>
    simp [not_ends_of_short hcloser, level, unescaped]
  | case3 c t ih =>
    rw [level_pair, ← ih]
    simp only [ends_escape_iff hcloser]
    constructor
    · rintro ⟨_, inner, -, hends⟩
      exact ⟨inner, hends⟩
    · rintro ⟨inner, hends⟩
      exact ⟨_, inner, rfl, hends⟩
  | case4 c t hlone hpair ih =>
    have hc : c ≠ '\\' := by
      intro hc
      cases t with
      | nil => exact hlone hc rfl
      | cons e t => exact hpair e t hc rfl
    -- a character behind which the group goes on
    have hpassed : ∀ {depth'}, step opener closer depth c = some depth' →
        (c = closer → depth ≠ 0) →
        (∀ u, Closes opener closer depth (c :: u) ↔ Closes opener closer depth' u) →
        ((∃ inner, Ends opener closer depth (c :: t) inner) ↔
          level opener closer depth (c :: t) = none) := by
      intro depth' hstep hdepth hcloses
      rw [level_cons hc, hstep, Option.bind_some, ← ih]
      simp only [ends_cons_iff hc, hcloses]
      constructor
      · rintro ⟨_, ⟨-, hclose, hzero⟩ | ⟨inner, -, hstands, hcloses, hclosed⟩⟩
        · exact absurd hzero (hdepth hclose)
        · exact ⟨inner, hstands, hcloses, hclosed⟩
      · rintro ⟨inner, hstands, hcloses, hclosed⟩
        exact ⟨_, .inr ⟨inner, rfl, hstands, hcloses, hclosed⟩⟩
    by_cases hopened : c = opener
    · subst hopened
      exact hpassed step_opener (fun h => absurd h hne) fun _ => closes_opener hne
    · by_cases hclosed : c = closer
      · subst hclosed
        cases depth with
        | zero =>
          rw [level_cons hc, step_closer_zero hne]
          exact ⟨fun _ => rfl, fun _ => ⟨[], (ends_cons_iff hc).mpr (.inl ⟨rfl, rfl, rfl⟩)⟩⟩
        | succ depth =>
          exact hpassed (step_closer hne) (fun _ => Nat.succ_ne_zero _) fun _ => closes_closer hne
      · exact hpassed (step_of_ne hopened hclosed) (fun h => absurd h hclosed)
          fun _ => closes_of_ne hopened hclosed

include hne hcloser in
theorem exists_content_iff_level :
    (∃ inner rest, t = inner ++ closer :: rest ∧ IsContent opener closer inner) ↔
      level opener closer 0 t = none := by
  rw [← exists_ends_iff_level hne hcloser]
  constructor
  · rintro ⟨inner, rest, rfl, hinner⟩
    exact ⟨inner, isContent_iff_ends.mp hinner⟩
  · rintro ⟨inner, hends⟩
    obtain ⟨rest, rfl⟩ := hends.stands
    rw [List.append_assoc, List.singleton_append] at hends ⊢
    exact ⟨inner, rest, rfl, isContent_iff_ends.mpr hends⟩

include hne hcloser in
/-- **Where a group goes on**: it ends behind a piece of the text if the piece does not close too
    many levels. -/
theorem ends_append_iff (hs : level opener closer depth s = some depth')
    (hopen : escapedBehind false s = false) :
    Ends opener closer depth (s ++ t) inner ↔
      ∃ inner', inner = s ++ inner' ∧ Ends opener closer depth' t inner' := by
  have hcloses : ∀ u, Closes opener closer depth (unescaped (s ++ u)) ↔
      Closes opener closer depth' (unescaped u) := by
    intro u
    rw [closes_iff_foldlM hne, closes_iff_foldlM hne]
    have hlevel : level opener closer depth (s ++ u) =
        (level opener closer depth s).bind fun d => level opener closer d u := level_append hopen u
    rw [hs, Option.bind_some] at hlevel
    exact Eq.congr_left hlevel
  constructor
  · rintro ⟨hstands, hends, hclosed⟩
    rcases List.prefix_or_prefix_of_prefix ((List.prefix_append inner [closer]).trans hstands)
      (List.prefix_append s t) with ⟨more, rfl⟩ | ⟨inner', rfl⟩
    · have hinner : level opener closer depth inner = some 0 := (closes_iff_foldlM hne).mp hends
      rw [List.append_assoc] at hstands
      have hstands := (List.prefix_append_right_inj inner).mp hstands
      cases more with
      | nil =>
        rw [List.append_nil, hinner] at hs
        exact ⟨[], by simp, ends_nil_iff.mpr ⟨hstands, (Option.some.inj hs).symm⟩⟩
      | cons c more =>
        -- the group would end inside of the piece
        obtain ⟨rfl, -⟩ := List.cons_prefix_cons.mp hstands
        rw [level_append hclosed, hinner, Option.bind_some, level_cons hcloser,
          step_closer_zero hne] at hs
        cases hs
    · refine ⟨inner', rfl, ?_, (hcloses inner').mp hends, ?_⟩
      · rw [List.append_assoc] at hstands
        exact (List.prefix_append_right_inj s).mp hstands
      · rwa [Scan.escapedBehind_append, hopen] at hclosed
  · rintro ⟨inner', rfl, hstands, hends, hclosed⟩
    refine ⟨?_, (hcloses inner').mpr hends, ?_⟩
    · rw [List.append_assoc]
      exact (List.prefix_append_right_inj s).mpr hstands
    · rwa [Scan.escapedBehind_append, hopen]

theorem Ends.append (h : Ends opener closer depth t inner) (more : Text) :
    Ends opener closer depth (t ++ more) inner :=
  ⟨h.stands.trans (List.prefix_append t more), h.closes, h.closed⟩

include hne hopener hcloser in
theorem Ends.unique {inner' : Text} (h : Ends opener closer depth t inner)
    (h' : Ends opener closer depth t inner') : inner = inner' := by
  have hlength := ((close?_eq_some_iff hne hopener hcloser).mpr ⟨inner, rfl, h⟩).symm.trans
    ((close?_eq_some_iff hne hopener hcloser).mpr ⟨inner', rfl, h'⟩)
  have hlength := Nat.succ.inj (Option.some.inj hlength)
  have hprefix := List.prefix_of_prefix_length_le
    ((List.prefix_append inner [closer]).trans h.stands)
    ((List.prefix_append inner' [closer]).trans h'.stands) (Nat.le_of_eq hlength)
  exact hprefix.eq_of_length hlength

include hne hopener hcloser in
/-- Where a group ends inside of a piece of the text, the rest does not matter. -/
theorem ends_append_of_level (hs : level opener closer depth s = none)
    (h : Ends opener closer depth (s ++ t) inner) : Ends opener closer depth s inner := by
  obtain ⟨inner', hinner'⟩ := (exists_ends_iff_level hne hcloser).mpr hs
  rwa [h.unique hne hopener hcloser (hinner'.append t)]

end

end TexMark.Group
