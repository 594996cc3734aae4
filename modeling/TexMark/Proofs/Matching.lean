/-
  TexMark/Proofs/Matching.lean
  ============================
  **The closing character that matches.**  A group is read with its depth counted and with two
  characters taken at every backslash.  What that comes to can be said of offsets alone: a
  character is bare if an even run of backslashes stands before it, and a group ends at the first
  offset in front of which as many opening as closing characters stand bare.

    * `bareCount_eq` — the bare characters are those that no backslash takes out of the count;
    * `isLeast_of_read?` — where a group is read, it is even at its end and not before;
    * `not_evenAt_of_read?` — where none is read, it is never even;
    * `matched_of_read` — both in one, with what a group holds.
-/
import TexMark.Proofs.Levels
import Mathlib.Order.Bounds.Basic

namespace TexMark.Group

open Scan (escapedBehind isEscaped)

variable {opener closer c d : Char} {s t u text inner rest : Text} {depth depth' pos stop : Nat}

/-! ### Bare characters -/

/-- How often a character stands **bare** in a text, behind an even run of backslashes. -/
def bareCount (c : Char) (t : Text) : Nat :=
  (List.range t.length).countP fun i => t[i]? == some c && !isEscaped t i

/-- A character at the end counts if no backslash is open there. -/
theorem bareCount_concat (c : Char) (t : Text) (d : Char) : bareCount c (t ++ [d]) =
    bareCount c t + if d = c ∧ escapedBehind false t = false then 1 else 0 := by
  have hfront : ∀ i ∈ List.range t.length,
      ((t ++ [d])[i]? == some c && !isEscaped (t ++ [d]) i) = true ↔
        (t[i]? == some c && !isEscaped t i) = true := by
    intro i hi
    have hlt := List.mem_range.mp hi
    rw [List.getElem?_append_left hlt, Scan.isEscaped_eq, Scan.isEscaped_eq,
      List.take_append_of_le_length hlt.le]
  rw [bareCount, List.length_append, List.length_singleton, List.range_succ, List.countP_append,
    List.countP_congr hfront, List.countP_singleton, List.getElem?_concat_length,
    Scan.isEscaped_eq, List.take_left]
  simp [bareCount]

theorem count_unescaped_concat (hc : c ≠ '\\') (t : Text) (d : Char) :
    (unescaped (t ++ [d])).count c =
      (unescaped t).count c + if d = c ∧ escapedBehind false t = false then 1 else 0 := by
  cases hopen : escapedBehind false t with
  | false =>
    rw [unescaped_append hopen, List.count_append]
    by_cases hd : d = '\\'
    · subst hd
      simp [unescaped, Ne.symm hc]
    · rw [unescaped_cons hd]
      simp [unescaped, List.count_singleton]
  | true =>
    -- the text ends with the backslash that is open
    obtain ⟨s, b, rfl⟩ : ∃ s b, t = s ++ [b] := by
      cases t using List.reverseRecOn with
      | nil => cases hopen
      | append_singleton s b => exact ⟨s, b, rfl⟩
    have hlast : b = '\\' ∧ escapedBehind false s = false := by simpa using hopen
    obtain ⟨rfl, hs⟩ := hlast
    rw [List.append_assoc, List.singleton_append, unescaped_append hs, unescaped_append hs]
    simp [unescaped]

/-- **Bare characters are those that are not escaped.** -/
theorem bareCount_eq (hc : c ≠ '\\') (t : Text) : bareCount c t = (unescaped t).count c := by
  induction t using List.reverseRecOn with
  | nil => rfl
  | append_singleton t d ih => rw [bareCount_concat, count_unescaped_concat hc, ih]

theorem unescaped_mono (h : s <+: t) : unescaped s <+: unescaped t := by
  fun_induction unescaped s generalizing t with
  | case1 => exact List.nil_prefix
  | case2 => exact List.nil_prefix
  | case3 c s ih =>
    obtain ⟨rest, rfl⟩ := h
    have hrest : unescaped s <+: unescaped (s ++ rest) := ih (List.prefix_append s rest)
    exact hrest
  | case4 c s hlone hpair ih =>
    have hc : c ≠ '\\' := by
      intro hc
      cases s with
      | nil => exact hlone hc rfl
      | cons d s => exact hpair d s hc rfl
    obtain ⟨rest, rfl⟩ := h
    rw [List.cons_append, unescaped_cons hc]
    exact List.cons_prefix_cons.mpr ⟨rfl, ih (List.prefix_append s rest)⟩

/-- In a beginning of what a group holds, no closing character is one too many. -/
theorem IsContent.count_le (h : IsContent opener closer inner) (hs : s <+: inner) :
    (unescaped s).count closer ≤ (unescaped s).count opener :=
  h.balanced.1 _ ((List.mem_inits _ _).mpr (unescaped_mono hs))

/-! ### Levels and counts -/

/-- The levels that are open are the characters that open one less those that close one. -/
theorem count_of_foldlM (hne : opener ≠ closer)
    (h : u.foldlM (step opener closer) depth = some depth') :
    depth + u.count opener = depth' + u.count closer := by
  induction u generalizing depth with
  | nil =>
    cases h
    rfl
  | cons c u ih =>
    rw [List.foldlM_cons] at h
    obtain ⟨middle, hfirst, hrest⟩ := Option.bind_eq_some_iff.mp h
    have hrest := ih hrest
    by_cases hopener : c = opener
    · subst hopener
      rw [step_opener] at hfirst
      cases hfirst
      rw [List.count_cons_self, List.count_cons_of_ne hne]
      omega
    · by_cases hcloser : c = closer
      · subst hcloser
        cases depth with
        | zero =>
          rw [step_closer_zero hne] at hfirst
          cases hfirst
        | succ depth =>
          rw [step_closer hne] at hfirst
          cases hfirst
          rw [List.count_cons_self, List.count_cons_of_ne hne.symm]
          omega
      · rw [step_of_ne hopener hcloser] at hfirst
        cases hfirst
        rw [List.count_cons_of_ne hopener, List.count_cons_of_ne hcloser]
        exact hrest

/-- Where no level too many is closed, none is in a beginning of the text. -/
theorem count_le_of_level (hne : opener ≠ closer) (h : level opener closer 0 t ≠ none)
    (hs : s <+: t) : (unescaped s).count closer ≤ (unescaped s).count opener := by
  obtain ⟨v, hv⟩ := unescaped_mono hs
  cases hlevel : (unescaped s).foldlM (step opener closer) 0 with
  | none =>
    refine absurd ?_ h
    rw [level, ← hv, List.foldlM_append, hlevel]
    rfl
  | some depth =>
    have := count_of_foldlM hne hlevel
    omega

/-! ### Even groups -/

/-- The group that begins at an offset is **even** at another one behind it: between the two as
    many opening as closing characters stand bare. -/
structure EvenAt (opener closer : Char) (text : Text) (pos stop : Nat) : Prop where
  lt : pos < stop
  le : stop ≤ text.length
  even : bareCount opener (Text.slice text pos stop) = bareCount closer (Text.slice text pos stop)

theorem slice_eq_cons (ht : text.drop pos = opener :: t) (hlt : pos < stop) :
    Text.slice text pos stop = opener :: t.take (stop - (pos + 1)) := by
  have hsize : stop - pos = stop - (pos + 1) + 1 := by omega
  rw [Text.slice, List.drop_take, ht, hsize, List.take_succ_cons]

section

variable (hne : opener ≠ closer) (hopener : opener ≠ '\\') (hcloser : closer ≠ '\\')

include hne hopener hcloser in
/-- At an offset behind the opening character, what follows it is counted. -/
theorem evenAt_iff (ht : text.drop pos = opener :: t) : EvenAt opener closer text pos stop ↔
    pos < stop ∧ stop ≤ text.length ∧ (unescaped (t.take (stop - (pos + 1)))).count closer =
      (unescaped (t.take (stop - (pos + 1)))).count opener + 1 := by
  have hcount : pos < stop → (bareCount opener (Text.slice text pos stop) =
      bareCount closer (Text.slice text pos stop) ↔
        (unescaped (t.take (stop - (pos + 1)))).count closer =
          (unescaped (t.take (stop - (pos + 1)))).count opener + 1) := by
    intro hlt
    rw [bareCount_eq hopener, bareCount_eq hcloser, slice_eq_cons ht hlt, unescaped_cons hopener,
      List.count_cons_self, List.count_cons_of_ne hne, eq_comm]
  constructor
  · rintro ⟨hlt, hle, heven⟩
    exact ⟨hlt, hle, (hcount hlt).mp heven⟩
  · rintro ⟨hlt, hle, heven⟩
    exact ⟨hlt, hle, (hcount hlt).mpr heven⟩

include hne hopener hcloser in
/-- **Where a group is read**, it is even at its end, and nowhere before. -/
theorem isLeast_of_read? (h : read? opener closer (text.drop pos) = some (inner, rest)) :
    text[pos]? = some opener ∧
      IsLeast {e | EvenAt opener closer text pos e} (pos + inner.length + 2) ∧
      inner = Text.slice text (pos + 1) (pos + inner.length + 1) ∧
      rest = text.drop (pos + inner.length + 2) := by
  obtain ⟨ht, hcontent⟩ := (read?_eq_some_iff hne hopener hcloser).mp h
  have htotal := hcontent.balanced.2
  have hlength := congrArg List.length ht
  simp only [List.length_drop, List.length_cons, List.length_append] at hlength
  have hbehind : text.drop (pos + 1) = inner ++ closer :: rest := by
    rw [← List.drop_drop, ht]
    rfl
  refine ⟨?_, ⟨?_, ?_⟩, ?_, ?_⟩
  · rw [← List.head?_drop, ht]
    rfl
  · refine (evenAt_iff hne hopener hcloser ht).mpr ⟨by omega, by omega, ?_⟩
    have hsize : pos + inner.length + 2 - (pos + 1) = inner.length + 1 := by omega
    have htake : (inner ++ closer :: rest).take (inner.length + 1) = inner ++ [closer] := by
      rw [List.take_length_add_append]
      rfl
    rw [hsize, htake, unescaped_append hcontent.closed, unescaped_cons hcloser]
    simp [unescaped, hne.symm, htotal]
  · intro e he
    obtain ⟨hlt, -, heven⟩ := (evenAt_iff hne hopener hcloser ht).mp he
    by_contra hbefore
    have hsize : e - (pos + 1) ≤ inner.length := by omega
    rw [List.take_append_of_le_length hsize] at heven
    have := hcontent.count_le (List.take_prefix (e - (pos + 1)) inner)
    omega
  · have hslice := Text.slice_of_drop hbehind
    rw [Nat.add_right_comm] at hslice
    exact hslice.symm
  · have hgroup : text.drop (pos + 1) = (inner ++ [closer]) ++ rest := by simpa using hbehind
    have hdrop := Text.drop_of_drop hgroup
    rw [List.length_append, List.length_singleton] at hdrop
    rw [← hdrop]
    congr 1
    omega

include hne hopener hcloser in
/-- **Where none is read**, the group is never even. -/
theorem not_evenAt_of_read? (h : read? opener closer (text.drop pos) = none)
    (hhead : text[pos]? = some opener) : ¬ EvenAt opener closer text pos stop := by
  have ht : text.drop pos = opener :: text.drop (pos + 1) := by
    obtain ⟨hlt, hget⟩ := List.getElem?_eq_some_iff.mp hhead
    rw [List.drop_eq_getElem_cons hlt, hget]
  have hlevel : level opener closer 0 (text.drop (pos + 1)) ≠ none := by
    intro hnone
    obtain ⟨inner, rest, hdrop, hcontent⟩ := (exists_content_iff_level hne hcloser).mpr hnone
    rw [hdrop] at ht
    rw [(read?_eq_some_iff hne hopener hcloser).mpr ⟨ht, hcontent⟩] at h
    cases h
  intro heven
  obtain ⟨-, -, hcount⟩ := (evenAt_iff hne hopener hcloser ht).mp heven
  have := count_le_of_level hne hlevel (List.take_prefix (stop - (pos + 1)) _)
  omega

include hne hopener hcloser in
/-- **A group ends at the closing character that matches.**  For every text, every offset and all
    pairs of characters that open and close:

    * a group with `inner` in it, and `rest` behind it, is read just when the opening character
      stands at the offset, and for the least offset at which the group is even, `inner` is what
      stands between its two ends and `rest` what follows;
    * none is read just when there is no such offset;
    * what a group holds is balanced, and a text that goes on differently behind a group has the
      same group there. -/
theorem matched_of_read (text : Text) (pos : Nat) :
    (∀ inner rest, read? opener closer (text.drop pos) = some (inner, rest) ↔
      ∃ stop, text[pos]? = some opener ∧
        IsLeast {e | EvenAt opener closer text pos e} stop ∧
        inner = Text.slice text (pos + 1) (stop - 1) ∧ rest = text.drop stop) ∧
    (read? opener closer (text.drop pos) = none ↔
      ¬ ∃ stop, text[pos]? = some opener ∧ EvenAt opener closer text pos stop) ∧
    ∀ inner rest, read? opener closer (text.drop pos) = some (inner, rest) →
      ((∀ s, s <+: inner → bareCount closer s ≤ bareCount opener s) ∧
        bareCount closer inner = bareCount opener inner) ∧
      ∀ stop, IsLeast {e | EvenAt opener closer text pos e} stop →
        text[stop - 1]? = some closer ∧
        ∀ other : Text, other.take stop = text.take stop →
          read? opener closer (other.drop pos) = some (inner, other.drop stop) := by
  have hleast := fun {inner rest : Text} (h : read? opener closer (text.drop pos) =
    some (inner, rest)) => isLeast_of_read? hne hopener hcloser h
  refine ⟨?_, ?_, ?_⟩
  · intro inner rest
    constructor
    · intro h
      obtain ⟨hhead, hstop, hinner, hrest⟩ := hleast h
      exact ⟨pos + inner.length + 2, hhead, hstop, hinner, hrest⟩
    · rintro ⟨stop, hhead, hstop, rfl, rfl⟩
      cases h : read? opener closer (text.drop pos) with
      | none => exact absurd hstop.1 (not_evenAt_of_read? hne hopener hcloser h hhead)
      | some group =>
        obtain ⟨inner, rest⟩ := group
        obtain ⟨-, hstop', hinner, hrest⟩ := hleast h
        obtain rfl := hstop.unique hstop'
        rw [hrest]
        exact congrArg (fun t => some (t, _)) hinner
  · constructor
    · rintro h ⟨stop, hhead, heven⟩
      exact not_evenAt_of_read? hne hopener hcloser h hhead heven
    · intro hnone
      cases h : read? opener closer (text.drop pos) with
      | none => rfl
      | some group =>
        obtain ⟨hhead, hstop, -⟩ := hleast h
        exact absurd ⟨_, hhead, hstop.1⟩ hnone
  · intro inner rest h
    obtain ⟨ht, hcontent⟩ := (read?_eq_some_iff hne hopener hcloser).mp h
    refine ⟨⟨fun s hs => ?_, ?_⟩, ?_⟩
    · rw [bareCount_eq hopener, bareCount_eq hcloser]
      exact hcontent.count_le hs
    · rw [bareCount_eq hopener, bareCount_eq hcloser]
      exact hcontent.balanced.2
    · intro stop hstop
      obtain ⟨-, hstop', -, hrest⟩ := hleast h
      obtain rfl := hstop.unique hstop'
      have hgroup : text.drop pos = (opener :: (inner ++ [closer])) ++ rest := by simpa using ht
      have hlength : pos + (opener :: (inner ++ [closer])).length = pos + inner.length + 2 := by
        simp only [List.length_cons, List.length_append, List.length_nil]
        omega
      have hslice := Text.slice_of_drop hgroup
      rw [hlength] at hslice
      constructor
      · have hlast : text.drop (pos + (opener :: inner).length) = closer :: rest :=
          Text.drop_of_drop (by simpa using ht)
        rw [List.length_cons, ← Nat.add_assoc] at hlast
        have hpos : pos + inner.length + 2 - 1 = pos + inner.length + 1 := by omega
        rw [hpos, ← List.head?_drop, hlast]
        rfl
      · intro other hother
        refine (read?_eq_some_iff hne hopener hcloser).mpr ⟨?_, hcontent⟩
        rw [Text.slice, ← hother] at hslice
        rw [Text.drop_eq_slice_append other hstop.1.lt.le, Text.slice, hslice]
        simp

end

/-- What a group can hold: an escaped closing character, a line break, and a group. -/
def someContent : Text := "a\\]\\\\[b]"

theorem matched_of_read_nested :
    read? '[' ']' (("x[" ++ someContent ++ "]c]").drop 1) = some (someContent, ("c]" : Text)) ∧
      EvenAt '[' ']' ("x[" ++ someContent ++ "]c]") 1 11 ∧
      bareCount ']' someContent = bareCount '[' someContent ∧
      read? '[' ']' (("x[" ++ someContent ++ "]!").drop 1) = some (someContent, ("!" : Text)) := by
  have hread : read? '[' ']' (("x[" ++ someContent ++ "]c]").drop 1) =
      some (someContent, ("c]" : Text)) := by decide
  obtain ⟨hiff, -, hgroup⟩ := matched_of_read (by decide : '[' ≠ ']') (by decide) (by decide)
    ("x[" ++ someContent ++ "]c]") 1
  obtain ⟨stop, -, hleast, -, hrest⟩ := (hiff _ _).mp hread
  obtain ⟨⟨-, hbalanced⟩, hends⟩ := hgroup _ _ hread
  have hstop : stop = 11 := by
    have hle : stop ≤ 13 := hleast.1.le
    have hlength : 2 = 13 - stop := by
      have h := congrArg List.length hrest
      rwa [List.length_drop] at h
    omega
  subst hstop
  exact ⟨hread, hleast.1, hbalanced, (hends 11 hleast).2 ("x[" ++ someContent ++ "]!") (by decide)⟩

end TexMark.Group
