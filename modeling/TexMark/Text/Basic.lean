/-
  TexMark/Text/Basic.lean
  =======================
  **Texts.** A document is a sequence of characters, and every offset into it
  counts characters. This file holds the operations on texts that know nothing of
  their content: pieces, splitting and joining, plain numerals, the order of code
  points.
-/
namespace TexMark

/-- A **text** is a sequence of characters; offsets into it count characters. -/
abbrev Text := List Char

/-- A string literal stands for its characters. -/
instance textOfString : Coe String Text := ⟨String.toList⟩

namespace Text

/-! ### Pieces -/

/-- The characters from offset `start` up to, and without, offset `stop`. -/
def slice (t : Text) (start stop : Nat) : Text := (t.take stop).drop start

/-- What follows `front` in a text that starts with it. -/
def dropPrefix? : (front t : Text) → Option Text
  | [], t => some t
  | _ :: _, [] => none
  | p :: ps, c :: cs => if p = c then dropPrefix? ps cs else none

theorem dropPrefix?_eq_some_iff {front t rest : Text} :
    dropPrefix? front t = some rest ↔ t = front ++ rest := by
  induction front generalizing t with
  | nil => simp [dropPrefix?]
  | cons p ps ih =>
    cases t with
    | nil => simp [dropPrefix?]
    | cons c cs =>
      by_cases h : p = c
      · simp [dropPrefix?, h, ih]
      · simp [dropPrefix?, h, Ne.symm h]

def startsWith (t front : Text) : Bool := (dropPrefix? front t).isSome

/-- Removes the characters of a class from both ends. -/
def trim (strippable : Char → Bool) (t : Text) : Text :=
  ((t.dropWhile strippable).reverse.dropWhile strippable).reverse

/-- Removes the characters of a class from the end. -/
def trimEnd (strippable : Char → Bool) (t : Text) : Text :=
  (t.reverse.dropWhile strippable).reverse

/-! ### Splitting and joining -/

/-- The pieces between the occurrences of a separator; there is always one more
    piece than there are separators. -/
def splitOn (sep : Char) : Text → List Text
  | [] => [[]]
  | c :: cs =>
    if c = sep then [] :: splitOn sep cs
    else match splitOn sep cs with
      | [] => [[c]]
      | piece :: pieces => (c :: piece) :: pieces

/-- The pieces with a separator between neighbours. -/
def join (sep : Text) (pieces : List Text) : Text := List.intercalate sep pieces

theorem splitOn_ne_nil (sep : Char) (t : Text) : splitOn sep t ≠ [] := by
  cases t with
  | nil => simp [splitOn]
  | cons c cs =>
    unfold splitOn
    split
    · simp
    · split <;> simp

/-- Splitting loses nothing. -/
theorem join_splitOn (sep : Char) (t : Text) : join [sep] (splitOn sep t) = t := by
  induction t with
  | nil => simp [splitOn, join]
  | cons c cs ih =>
    obtain ⟨piece, pieces, hp⟩ := List.exists_cons_of_ne_nil (splitOn_ne_nil sep cs)
    rw [hp] at ih
    by_cases h : c = sep
    · simp only [splitOn, h, if_true, hp]
      rw [← ih]
      simp [join]
    · simp only [splitOn, h, if_false, hp]
      rw [← ih]
      cases pieces <;> simp [join]

/-- The lines of a text, without their line feeds. -/
def lines (t : Text) : List Text := splitOn '\n' t

/-- The lines, with a line feed between neighbours. -/
def unlines (ls : List Text) : Text := join ['\n'] ls

def braced (t : Text) : Text := '{' :: (t ++ ['}'])

def bracketed (t : Text) : Text := '[' :: (t ++ [']'])

/-- The text, and `width` characters at least: blanks fill it up. -/
def padEnd (width : Nat) (t : Text) : Text := t ++ List.replicate (width - t.length) ' '

/-! ### Numerals -/

def ofNat (n : Nat) : Text := Nat.toDigits 10 n

def ofInt (i : Int) : Text := if i < 0 then '-' :: ofNat i.natAbs else ofNat i.natAbs

/-- The lower-case hexadecimal numeral, filled up with zeros to `width` digits. -/
def hex (width n : Nat) : Text :=
  let digits := Nat.toDigits 16 n
  List.replicate (width - digits.length) '0' ++ digits

/-! ### Order -/

/-- The order of code points, first difference first; a text comes after its own
    beginnings. -/
def le : Text → Text → Bool
  | [], _ => true
  | _ :: _, [] => false
  | a :: as, b :: bs => a.toNat < b.toNat || (a.toNat == b.toNat && le as bs)

theorem le_total (s t : Text) : le s t || le t s := by
  induction s generalizing t with
  | nil => simp [le]
  | cons a as ih =>
    cases t with
    | nil => simp [le]
    | cons b bs =>
      have := ih bs
      rcases Nat.lt_trichotomy a.toNat b.toNat with h | h | h <;> simp_all [le]

theorem le_trans {s t u : Text} (hst : le s t) (htu : le t u) : le s u := by
  induction s generalizing t u with
  | nil => rfl
  | cons a as ih =>
    cases t with
    | nil => cases hst
    | cons b bs =>
      cases u with
      | nil => cases htu
      | cons c cs =>
        simp only [le, Bool.or_eq_true, decide_eq_true_eq, Bool.and_eq_true, beq_iff_eq] at *
        rcases hst with h | ⟨h, hs⟩ <;> rcases htu with h' | ⟨h', ht⟩
        · left; omega
        · left; omega
        · left; omega
        · exact .inr ⟨by omega, ih hs ht⟩

theorem le_antisymm {s t : Text} (hst : le s t) (hts : le t s) : s = t := by
  induction s generalizing t with
  | nil =>
    cases t with
    | nil => rfl
    | cons b bs => cases hts
  | cons a as ih =>
    cases t with
    | nil => cases hst
    | cons b bs =>
      simp only [le, Bool.or_eq_true, decide_eq_true_eq, Bool.and_eq_true, beq_iff_eq] at hst hts
      rcases hst with h | ⟨h, hs⟩ <;> rcases hts with h' | ⟨h', ht⟩
      · omega
      · omega
      · omega
      · rw [ih hs ht, Char.toNat_inj.mp h]

def sort (ts : List Text) : List Text := ts.mergeSort le

theorem pairwise_sort (ts : List Text) : (sort ts).Pairwise fun s t => le s t := by
  apply @List.pairwise_mergeSort _ le
  · exact fun _ _ _ => le_trans
  · exact le_total

theorem sort_perm (ts : List Text) : (sort ts).Perm ts := List.mergeSort_perm ts le

/-- The texts in the order of code points, each of them once. -/
def sortedSet (ts : List Text) : List Text := sort ts.eraseDups

end Text

end TexMark
