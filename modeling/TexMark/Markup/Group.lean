/-
  TexMark/Markup/Group.lean
  =========================
  **Groups.** The argument of a command stands between an opening and a closing
  character, and may hold groups of the same kind. A backslash takes the character
  after it out of the count, so an escaped brace neither opens nor closes.

  `Group.read?` is `read_group`, `Group.skipSpaces` is `skip_spaces`.
-/
import TexMark.Text.Basic

namespace TexMark.Group

/-- How many characters lead to the end of a group of which `depth` levels are open,
    the closing character included. -/
def close? (opener closer : Char) (depth : Nat) : Text → Option Nat
  | [] => none
  | ['\\'] => none
  | '\\' :: _ :: rest => (close? opener closer depth rest).map (· + 2)
  | c :: rest =>
    if c = opener then (close? opener closer (depth + 1) rest).map (· + 1)
    else if c = closer then
      if depth = 1 then some 1 else (close? opener closer (depth - 1) rest).map (· + 1)
    else (close? opener closer depth rest).map (· + 1)

/-- Reads the group at the head of a text: what it holds, and what follows it (`read_group`).
    There is none when the text does not begin with `opener` or the group never closes. -/
def read? (opener closer : Char) (t : Text) : Option (Text × Text) :=
  if t.head? = some opener then
    (close? opener closer 0 t).map fun size => (Text.slice t 1 (size - 1), t.drop size)
  else none

/-- The end of a group is a closing character, and the first one only at depth one. -/
theorem close?_eq_some {opener closer : Char} {depth n : Nat} {t : Text}
    (h : close? opener closer depth t = some n) :
    ∃ m, n = m + 1 ∧ t[m]? = some closer ∧ (m = 0 → depth = 1) := by
  fun_induction close? opener closer depth t generalizing n with
  | case1 => cases h
  | case2 => cases h
  | case5 =>
    cases h
    exact ⟨0, rfl, rfl, fun _ => rfl⟩
  | case3 _ _ _ ih | case4 _ _ _ _ ih | case6 _ _ _ _ _ _ ih | case7 _ _ _ _ _ _ _ ih =>
    obtain ⟨k, hk, rfl⟩ := Option.map_eq_some_iff.1 h
    obtain ⟨m, rfl, hm, -⟩ := ih hk
    exact ⟨_, rfl, by simpa using hm, by simp⟩

/-- A group with what follows it makes up the text. -/
theorem eq_of_read?_eq_some {opener closer : Char} {t inner rest : Text}
    (h : read? opener closer t = some (inner, rest)) :
    t = opener :: inner ++ closer :: rest := by
  unfold read? at h
  split at h
  · rename_i hhead
    obtain ⟨n, hn, hpair⟩ := Option.map_eq_some_iff.1 h
    obtain ⟨m, rfl, hm, hpos⟩ := close?_eq_some hn
    cases t with
    | nil => cases hhead
    | cons c cs =>
      cases m with
      | zero => simp at hpos
      | succ m =>
        simp only [Prod.mk.injEq, Text.slice, Nat.add_one_sub_one, List.take_succ_cons,
          List.drop_succ_cons, List.drop_zero] at hpair
        obtain ⟨rfl, rfl⟩ := hpair
        simp only [List.getElem?_cons_succ] at hm
        simp only [List.head?_cons, Option.some.injEq] at hhead
        obtain ⟨hlt, hget⟩ := List.getElem?_eq_some_iff.1 hm
        rw [hhead, ← hget, List.cons_append, ← List.drop_eq_getElem_cons hlt,
          List.take_append_drop]
  · cases h

def braces? (t : Text) : Option (Text × Text) := read? '{' '}' t

def brackets? (t : Text) : Option (Text × Text) := read? '[' ']' t

/-- Passes over blanks and one line break at most; a blank line ends the search for an
    argument. `broken` says whether the line break has been passed. -/
def skipSpacesFrom (broken : Bool) : Text → Text
  | [] => []
  | c :: rest =>
    if c = '\n' then if broken then c :: rest else skipSpacesFrom true rest
    else if c = ' ' ∨ c = '\t' ∨ c = '\r' then skipSpacesFrom broken rest
    else c :: rest

/-- What follows the blanks, and one line break at most, at the head of a text (`skip_spaces`). -/
def skipSpaces (t : Text) : Text := skipSpacesFrom false t

end TexMark.Group
