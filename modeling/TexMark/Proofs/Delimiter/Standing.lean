/-
  TexMark/Proofs/Delimiter/Standing.lean
  ======================================
  **Where delimiters stand.**  The scan takes a line break and an escaped dollar as a whole, from
  left to right; a look back from one place counts the backslashes in front of it.  The two
  agree: a place where something stands that is written like a delimiter belongs to a delimiter
  of the scan just when it is not escaped (`Cut.covers_iff`, `covered_iff_unescaped`).  With the
  rules from TeX the delimiter that stands there is the one that is read, and with those from
  Markdown every dollar is part of one or is escaped (`unescaped_of_delimiters`).
-/
import TexMark.Proofs.Delimiter.Dialect
import Mathlib.Algebra.Group.Nat.Even

namespace TexMark.Delimiter

open Scan (escapedBehind isEscaped)

variable {rules : List DelimiterRule} {d u t : Text} {hs : List (Hit Text)} {pos k : Nat}

/-- Inside of a delimiter nothing is escaped where another one could begin. -/
theorem Formed.escapedBehind_take (hu : Formed u) (hd : Formed d) (hk : k < u.length)
    (hbegins : d <+: (u ++ t).drop k) : Scan.escapedBehind false (u.take k) = false := by
  rcases hu with ⟨-, -, hname⟩ | ⟨-, hdollars⟩
  · cases k with
    | zero => rfl
    | succ k =>
      -- the name of a delimiter holds neither a backslash nor a dollar
      have hne : u ≠ [] := List.ne_nil_of_length_pos (Nat.zero_lt_of_lt hk)
      obtain ⟨b, u, rfl⟩ := List.exists_cons_of_ne_nil hne
      have hlt : k < u.length := by simpa using hk
      obtain ⟨c, d, rfl⟩ := List.exists_cons_of_ne_nil hd.ne_nil
      rw [List.cons_append, List.drop_succ_cons, List.drop_append_of_le_length hlt.le,
        List.drop_eq_getElem_cons hlt, List.cons_append, List.cons_prefix_cons] at hbegins
      obtain ⟨hbackslash, hdollar⟩ := hname _ (List.getElem_mem hlt)
      rcases hd.head rfl with rfl | rfl
      · exact absurd hbegins.1.symm hbackslash
      · exact absurd hbegins.1.symm hdollar
  · refine Scan.escapedBehind_of_not_mem fun hmem => ?_
    have := hdollars _ (List.mem_of_mem_take hmem)
    revert this
    decide

namespace Cut

variable {escaped : Bool}

/-- What is cut off stands in the text as it is written. -/
theorem stands (h : Cut rules escaped pos t hs) : ∀ k ∈ hs, k.value ∈ marks rules ∧
    pos ≤ k.start ∧ k.stop = k.start + k.value.length ∧ k.value <+: t.drop (k.start - pos) := by
  induction h with
  | done => exact nofun
  | @skip _ pos c t hs _ _ ih =>
    intro k hk
    obtain ⟨hmark, hstart, hstop, hbegins⟩ := ih k hk
    obtain ⟨n, hn⟩ := Nat.exists_eq_add_of_le hstart
    refine ⟨hmark, by omega, hstop, ?_⟩
    rw [hn, Nat.add_sub_cancel_left] at hbegins
    rwa [hn, Nat.add_assoc, Nat.add_sub_cancel_left, Nat.add_comm, List.drop_succ_cons]
  | @mark pos u t hs hu _ _ ih =>
    refine List.forall_mem_cons.mpr ⟨⟨hu, Nat.le_refl _, rfl, by simp⟩, fun k hk => ?_⟩
    obtain ⟨hmark, hstart, hstop, hbegins⟩ := ih k hk
    obtain ⟨n, hn⟩ := Nat.exists_eq_add_of_le hstart
    refine ⟨hmark, by omega, hstop, ?_⟩
    rw [hn, Nat.add_sub_cancel_left] at hbegins
    rwa [hn, Nat.add_assoc, Nat.add_sub_cancel_left, List.drop_length_add_append]

/-- **A cut covers the unescaped places** at which something is written like a delimiter. -/
theorem covers_iff (hformed : ∀ d ∈ marks rules, Formed d) (hd : d ∈ marks rules)
    (h : Cut rules escaped pos t hs) (hbegins : d <+: t.drop k) :
    (∃ h ∈ hs, h.start ≤ pos + k ∧ pos + k < h.stop) ↔
      escapedBehind escaped (t.take k) = false := by
  induction h generalizing k with
  | done =>
    rw [List.drop_nil, List.prefix_nil] at hbegins
    exact absurd hbegins (hformed d hd).ne_nil
  | @skip escaped pos c t hs hno hrest ih =>
    cases k with
    | zero =>
      -- a delimiter that is passed over is escaped
      cases escaped with
      | false => exact absurd hbegins (hno rfl d hd)
      | true =>
        constructor
        · rintro ⟨h, hmem, hstart, -⟩
          have := (hrest.stands h hmem).2.1
          omega
        · exact nofun
    | succ k =>
      have hrest := ih (by simpa using hbegins)
      rwa [Nat.add_right_comm, Nat.add_assoc] at hrest
  | @mark pos u t hs hu hread hrest ih =>
    rcases Nat.lt_or_ge k u.length with hlt | hle
    · rw [List.take_append_of_le_length hlt.le]
      have hescaped := (hformed u hu).escapedBehind_take (hformed d hd) hlt hbegins
      simp only [hescaped, iff_true]
      exact ⟨_, List.mem_cons_self, Nat.le_add_right _ _, by simpa using hlt⟩
    · obtain ⟨j, rfl⟩ := Nat.exists_eq_add_of_le hle
      rw [List.drop_length_add_append] at hbegins
      rw [List.take_length_add_append, Scan.escapedBehind_append, (hformed u hu).escapedBehind,
        ← ih hbegins, Nat.add_assoc]
      simp

end Cut

/-- **A delimiter of the scan covers a place** where something is written like one just when the
    place is not escaped. -/
theorem covered_iff_unescaped (hformed : ∀ d ∈ marks rules, Formed d) (hd : d ∈ marks rules)
    {text : Text} {p : Nat} (hp : d <+: text.drop p) :
    (∃ h ∈ delimiters rules text, h.start ≤ p ∧ p < h.stop) ↔ isEscaped text p = false := by
  have hcover := (cut_delimiters hformed text).covers_iff hformed hd hp
  rwa [Nat.zero_add, ← Scan.isEscaped_eq] at hcover

/-! ### The two dialects -/

/-- No delimiter of TeX begins inside of another one, or begins like another one. -/
theorem eq_of_overlap : ∀ d ∈ marks forwardRules, ∀ u ∈ marks forwardRules, ∀ v ∈ u.tails,
    v ≠ [] → v <+: d ∨ d <+: v → v = u ∧ u = d := by
  decide

/-- The delimiter of TeX that covers the place of another one is that other one. -/
theorem eq_of_covers {text : Text} {p : Nat} (hd : d ∈ marks forwardRules)
    (hp : d <+: text.drop p) {h : Hit Text} (hmem : h ∈ delimiters forwardRules text)
    (hstart : h.start ≤ p) (hstop : p < h.stop) : h = ⟨p, p + d.length, d⟩ := by
  obtain ⟨hmark, -, hlength, hbegins⟩ :=
    (cut_delimiters dialect_forwardRules.formed text).stands h hmem
  obtain ⟨start, stop, u⟩ := h
  obtain ⟨j, rfl⟩ := Nat.exists_eq_add_of_le hstart
  simp only at hmark hlength hbegins hstop
  -- what the place leaves of the delimiter that covers it
  have hrest : u.drop j <+: text.drop (start + j) := by
    rw [Nat.sub_zero] at hbegins
    rw [← List.drop_drop]
    exact hbegins.drop j
  have hne : u.drop j ≠ [] := by
    rw [Ne, List.drop_eq_nil_iff]
    omega
  have hsuffix : u.drop j ∈ u.tails := (List.mem_tails _ _).mpr (List.drop_suffix j u)
  obtain ⟨hwhole, rfl⟩ := eq_of_overlap d hd u hmark _ hsuffix hne
    (List.prefix_or_prefix_of_prefix hrest hp)
  have hj : j = 0 := by
    have := congrArg List.length hwhole
    rw [List.length_drop] at this
    omega
  subst hj
  rw [hlength]
  rfl

/-- **Delimiters stand where nothing escapes them.**  The delimiters of TeX are read just at the
    places where they are written and not escaped; a dollar of Markdown is part of a delimiter
    just when an even run of backslashes stands in front of it. -/
theorem unescaped_of_delimiters (text : Text) (p : Nat) :
    (∀ d ∈ marks forwardRules, d <+: text.drop p →
      (⟨p, p + d.length, d⟩ ∈ delimiters forwardRules text ↔ isEscaped text p = false)) ∧
    (text[p]? = some '$' →
      ((∃ h ∈ delimiters reverseRules text, h.start ≤ p ∧ p < h.stop) ↔
        Even ((text.take p).reverse.takeWhile (· == '\\')).length)) := by
  constructor
  · intro d hd hp
    rw [← covered_iff_unescaped dialect_forwardRules.formed hd hp]
    constructor
    · intro hmem
      have := List.length_pos_iff.mpr (dialect_forwardRules.formed d hd).ne_nil
      exact ⟨_, hmem, Nat.le_refl p, by simpa⟩
    · rintro ⟨h, hmem, hstart, hstop⟩
      rwa [← eq_of_covers hd hp hmem hstart hstop]
  · intro hp
    have hdollar : ['$'] ∈ marks reverseRules := by decide
    have hbegins : ['$'] <+: text.drop p := by
      obtain ⟨hlt, heq⟩ := List.getElem?_eq_some_iff.mp hp
      rw [List.drop_eq_getElem_cons hlt, heq]
      exact List.prefix_append ['$'] _
    rw [covered_iff_unescaped dialect_reverseRules.formed hdollar hbegins, isEscaped, Scan.escapes,
      Nat.even_iff, beq_eq_false_iff_ne, Nat.mod_two_ne_one]

/-- Behind a line break a delimiter is read, and a dollar behind three backslashes is none. -/
theorem unescaped_of_delimiters_lineBreak :
    ⟨3, 5, ("\\[" : Text)⟩ ∈ delimiters forwardRules ("a\\\\\\[x" : Text) ∧
      ¬ ∃ h ∈ delimiters reverseRules ("\\\\\\$" : Text), h.start ≤ 3 ∧ 3 < h.stop := by
  constructor
  · have hstands : ("\\[" : Text) <+: ("a\\\\\\[x" : Text).drop 3 := by decide
    exact ((unescaped_of_delimiters _ 3).1 _ (by decide) hstands).mpr (by decide)
  · have hstands : ("\\\\\\$" : Text)[3]? = some '$' := by decide
    rw [(unescaped_of_delimiters _ 3).2 hstands]
    decide

end TexMark.Delimiter
