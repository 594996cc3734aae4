/-
  TexMark/Scan.lean
  =================
  **Looking for constructs from left to right.** A *recogniser* looks at one place of
  a text and says whether its construct begins there and how much of the text it takes.
  `Scan.hits` finds the places: the search begins again right behind each construct
  found, so that hits lie inside the text (`bounds_of_mem_hits`) and never overlap
  (`pairwise_hits`).

  A recogniser also sees the characters before its place, nearest first: some constructs
  count at the beginning of a line only, and a backslash may be escaped by another.

  `Scan.isEscaped` is `is_escaped`, `Scan.lineNumber` is `line_of`; `Scan.hits` and
  `Scan.replace` stand for the search with a pattern and for the substitution of its matches.
-/
import TexMark.Text.Basic

namespace TexMark

/-- A place of a text where a construct was recognised, with what was read there. -/
structure Hit (α : Type) where
  start : Nat
  stop : Nat
  value : α

/-- A **recogniser** gets the characters before a place, nearest first, and those from
    the place on. It answers what it read and what follows that. -/
abbrev Recognizer (α : Type) := (before rest : Text) → Option (α × Text)

namespace Scan

variable {α : Type}

/-- The hits in the rest of a text, of which `before` has been passed and `skip` more
    characters belong to the last hit. -/
def hitsFrom (read : Recognizer α) (pos : Nat) (before : Text) (skip : Nat) :
    Text → List (Hit α)
  | [] => []
  | c :: rest =>
    match skip with
    | skip + 1 => hitsFrom read (pos + 1) (c :: before) skip rest
    | 0 => match read before (c :: rest) with
      | none => hitsFrom read (pos + 1) (c :: before) 0 rest
      | some (value, after) =>
        let size := (c :: rest).length - after.length
        ⟨pos, pos + size, value⟩ :: hitsFrom read (pos + 1) (c :: before) (size - 1) rest

/-- Hits lie in the part of the text that is searched. -/
theorem bounds_of_mem_hitsFrom (read : Recognizer α) (pos : Nat) (before : Text) (skip : Nat)
    (t : Text) : ∀ h ∈ hitsFrom read pos before skip t,
      pos + skip ≤ h.start ∧ h.start ≤ h.stop ∧ h.stop ≤ pos + t.length := by
  induction t generalizing pos before skip with
  | nil => simp [hitsFrom]
  | cons c rest ih =>
    intro h hmem
    cases skip with
    | succ skip =>
      have := ih (pos + 1) (c :: before) skip h (by simpa [hitsFrom] using hmem)
      simp only [List.length_cons]
      omega
    | zero =>
      rw [hitsFrom] at hmem
      split at hmem
      · have := ih (pos + 1) (c :: before) 0 h hmem
        simp only [List.length_cons]
        omega
      · rename_i value after _
        rcases List.mem_cons.1 hmem with rfl | hmem
        · simp only [List.length_cons]
          omega
        · have := ih (pos + 1) (c :: before) _ h hmem
          simp only [List.length_cons]
          omega

/-- Each hit ends before the next one begins, and no two begin at one place. -/
theorem pairwise_hitsFrom (read : Recognizer α) (pos : Nat) (before : Text) (skip : Nat)
    (t : Text) : (hitsFrom read pos before skip t).Pairwise
      fun a b => a.stop ≤ b.start ∧ a.start < b.start := by
  induction t generalizing pos before skip with
  | nil => simp [hitsFrom]
  | cons c rest ih =>
    cases skip with
    | succ skip => simpa [hitsFrom] using ih (pos + 1) (c :: before) skip
    | zero =>
      rw [hitsFrom]
      split
      · exact ih (pos + 1) (c :: before) 0
      · refine List.pairwise_cons.2 ⟨fun h hmem => ?_, ih _ _ _⟩
        have := bounds_of_mem_hitsFrom read _ _ _ _ h hmem
        simp only [List.length_cons] at this ⊢
        omega

/-- All hits of a recogniser in a text, from left to right, none overlapping another. -/
def hits (read : Recognizer α) (text : Text) : List (Hit α) := hitsFrom read 0 [] 0 text

theorem bounds_of_mem_hits {read : Recognizer α} {text : Text} {h : Hit α}
    (hmem : h ∈ hits read text) : h.start ≤ h.stop ∧ h.stop ≤ text.length := by
  have := bounds_of_mem_hitsFrom read 0 [] 0 text h hmem
  omega

theorem pairwise_hits (read : Recognizer α) (text : Text) :
    (hits read text).Pairwise fun a b => a.stop ≤ b.start ∧ a.start < b.start :=
  pairwise_hitsFrom read 0 [] 0 text

/-- Writes the rest of a text with each hit replaced by what was read there. -/
def replaceFrom (read : Recognizer Text) (before : Text) (skip : Nat) : Text → Text
  | [] => []
  | c :: rest =>
    match skip with
    | skip + 1 => replaceFrom read (c :: before) skip rest
    | 0 => match read before (c :: rest) with
      | none => c :: replaceFrom read (c :: before) 0 rest
      | some (replacement, after) =>
        replacement ++ replaceFrom read (c :: before) (rest.length - after.length) rest

/-- The text with each hit of the recogniser replaced by what was read there. -/
def replace (read : Recognizer Text) (text : Text) : Text := replaceFrom read [] 0 text

def occurs (begins : Text → Bool) : Text → Bool
  | [] => false
  | c :: rest => begins (c :: rest) || occurs begins rest

/-! ### Escapes and lines -/

/-- After an odd run of backslashes the next character is escaped. -/
def escapes (before : Text) : Bool := (before.takeWhile (· == '\\')).length % 2 == 1

/-- Is the backslash at an offset itself escaped, so that it begins no command (`is_escaped`)? -/
def isEscaped (text : Text) (pos : Nat) : Bool := escapes (text.take pos).reverse

def atLineStart (before : Text) : Bool :=
  match before with
  | [] => true
  | c :: _ => c == '\n'

/-- The offset at which the line of a position begins. -/
def lineStart (text : Text) (pos : Nat) : Nat :=
  let before := text.take pos
  before.length - (before.reverse.takeWhile (· != '\n')).length

/-- The number of the line of a position, from one; positions outside the text count as its ends
    (`line_of`). -/
def lineNumber (text : Text) (pos : Int) : Nat := (text.take pos.toNat).count '\n' + 1

end Scan

end TexMark
