/-
  TexMark/Proofs/Groups.lean
  ==========================
  **What groups hold.**  The characters that no backslash escapes decide where a group ends: at the
  first closing one that leaves no opening one behind.

    * `read?_eq_some_iff` — a group is read just when it stands at the head of the text, and what
      it holds is balanced (`IsContent`);
    * `read?_skipSpaces_eq_some_iff` — the same for a group behind blanks (`Follows`);
    * `read?_of_balanced` — a group around balanced characters is read as it was written;
    * `read?_append` — what stands behind a group does not matter to it.
-/
import TexMark.Proofs.Scans

namespace TexMark.Group

open Scan (escapedBehind)

variable {opener closer : Char} {t u inner rest : Text} {depth : Nat}

/-! ### Balanced texts -/

/-- No closing character comes too early, and every opening one is closed. -/
def Balanced (opener closer : Char) (t : Text) : Prop :=
  (∀ u ∈ t.inits, u.count closer ≤ u.count opener) ∧ t.count closer = t.count opener

instance (opener closer : Char) (t : Text) : Decidable (Balanced opener closer t) :=
  inferInstanceAs (Decidable (_ ∧ _))

/-- The text closes `depth` levels that are open in front of it, and its own ones, and no others. -/
def Closes (opener closer : Char) (depth : Nat) (t : Text) : Prop :=
  (∀ u, u <+: t → u.count closer ≤ u.count opener + depth) ∧
    t.count closer = t.count opener + depth

theorem balanced_iff_closes : Balanced opener closer t ↔ Closes opener closer 0 t := by
  simp only [Balanced, Closes, List.mem_inits, Nat.add_zero]

theorem closes_nil_iff : Closes opener closer depth [] ↔ depth = 0 := by
  constructor
  · rintro ⟨-, hcount⟩
    simpa using hcount.symm
  · rintro rfl
    refine ⟨?_, rfl⟩
    intro u hu
    simp [List.prefix_nil.mp hu]

theorem closes_cons_iff {c : Char} : Closes opener closer depth (c :: t) ↔
    (∀ u, u <+: t → (c :: u).count closer ≤ (c :: u).count opener + depth) ∧
      (c :: t).count closer = (c :: t).count opener + depth := by
  constructor
  · rintro ⟨hbounds, hcount⟩
    exact ⟨fun u hu => hbounds (c :: u) (List.cons_prefix_cons.mpr ⟨rfl, hu⟩), hcount⟩
  · rintro ⟨hbounds, hcount⟩
    refine ⟨?_, hcount⟩
    intro u hu
    rcases List.prefix_cons_iff.mp hu with rfl | ⟨v, rfl, hv⟩
    · simp
    · exact hbounds v hv

theorem closes_opener (hne : opener ≠ closer) :
    Closes opener closer depth (opener :: t) ↔ Closes opener closer (depth + 1) t := by
  simp only [closes_cons_iff, List.count_cons_self, List.count_cons_of_ne hne]
  simp only [Closes, Nat.add_right_comm _ 1 depth, Nat.add_assoc]

theorem closes_closer (hne : opener ≠ closer) :
    Closes opener closer (depth + 1) (closer :: t) ↔ Closes opener closer depth t := by
  simp only [closes_cons_iff, List.count_cons_self, List.count_cons_of_ne hne.symm]
  simp only [Closes, ← Nat.add_assoc, Nat.add_le_add_iff_right, Nat.add_right_cancel_iff]

/-- With no level open, nothing can be closed. -/
theorem not_closes_closer (hne : opener ≠ closer) : ¬ Closes opener closer 0 (closer :: t) := by
  rw [closes_cons_iff]
  rintro ⟨hbounds, -⟩
  have := hbounds [] List.nil_prefix
  rw [List.count_cons_self, List.count_cons_of_ne hne.symm] at this
  simp at this

theorem closes_of_ne {c : Char} (hopener : c ≠ opener) (hcloser : c ≠ closer) :
    Closes opener closer depth (c :: t) ↔ Closes opener closer depth t := by
  rw [closes_cons_iff]
  simp only [List.count_cons_of_ne hopener, List.count_cons_of_ne hcloser, Closes]

/-! ### Escaped characters -/

/-- The characters that are not escaped, without the backslashes that escape. -/
def unescaped : Text → Text
  | [] => []
  | ['\\'] => []
  | '\\' :: _ :: t => unescaped t
  | c :: t => c :: unescaped t

theorem unescaped_cons {c : Char} (hc : c ≠ '\\') (t : Text) :
    unescaped (c :: t) = c :: unescaped t := by
  rw [unescaped]
  · rintro rfl
    exact absurd rfl hc
  · rintro d t' rfl
    exact absurd rfl hc

theorem unescaped_of_not_mem (ht : '\\' ∉ t) : unescaped t = t := by
  induction t with
  | nil => rfl
  | cons c t ih =>
    obtain ⟨hc, ht⟩ := not_or.mp (mt List.mem_cons.mpr ht)
    rw [unescaped_cons (Ne.symm hc), ih ht]

/-- What a group may **hold**: the characters that are not escaped are balanced, and at the end no
    backslash is open. -/
structure IsContent (opener closer : Char) (inner : Text) : Prop where
  balanced : Balanced opener closer (unescaped inner)
  closed : escapedBehind false inner = false

theorem isContent_of_not_mem (ht : '\\' ∉ t) (h : Balanced opener closer t) :
    IsContent opener closer t :=
  ⟨(unescaped_of_not_mem ht).symm ▸ h, Scan.escapedBehind_of_not_mem ht⟩

/-! ### The end of a group -/

/-- What stands in front of the closing character that closes the last of `depth + 1` open
    levels. -/
structure Ends (opener closer : Char) (depth : Nat) (t inner : Text) : Prop where
  stands : inner ++ [closer] <+: t
  closes : Closes opener closer depth (unescaped inner)
  closed : escapedBehind false inner = false

theorem ends_nil_iff : Ends opener closer depth t [] ↔ [closer] <+: t ∧ depth = 0 :=
  ⟨fun h => ⟨h.stands, closes_nil_iff.mp h.closes⟩, fun h => ⟨h.1, closes_nil_iff.mpr h.2, rfl⟩⟩

theorem ends_escape_iff (hcloser : closer ≠ '\\') {c : Char} :
    Ends opener closer depth ('\\' :: c :: t) inner ↔
      ∃ inner', inner = '\\' :: c :: inner' ∧ Ends opener closer depth t inner' := by
  constructor
  · intro h
    match inner, h with
    | [], h => exact absurd (List.cons_prefix_cons.mp h.stands).1 hcloser
    | [d], h =>
      obtain ⟨rfl, -⟩ := List.cons_prefix_cons.mp h.stands
      cases h.closed
    | d :: e :: inner', h =>
      have hstands : d = '\\' ∧ e = c ∧ inner' ++ [closer] <+: t := by
        simpa [List.cons_prefix_cons] using h.stands
      obtain ⟨rfl, rfl, hstands⟩ := hstands
      exact ⟨inner', rfl, hstands, h.closes, by simpa using h.closed⟩
  · rintro ⟨inner', rfl, hstands, hcloses, hclosed⟩
    refine ⟨?_, hcloses, by simpa using hclosed⟩
    exact List.cons_prefix_cons.mpr ⟨rfl, List.cons_prefix_cons.mpr ⟨rfl, hstands⟩⟩

theorem ends_cons_iff {c : Char} (hc : c ≠ '\\') : Ends opener closer depth (c :: t) inner ↔
    (inner = [] ∧ c = closer ∧ depth = 0) ∨ ∃ inner', inner = c :: inner' ∧
      inner' ++ [closer] <+: t ∧ Closes opener closer depth (c :: unescaped inner') ∧
      escapedBehind false inner' = false := by
  have hbehind : ∀ inner', escapedBehind false (c :: inner') = escapedBehind false inner' := by
    intro inner'
    rw [Scan.escapedBehind_cons, beq_false_of_ne hc, Bool.false_and]
  constructor
  · intro h
    match inner, h with
    | [], h =>
      obtain ⟨hstands, hdepth⟩ := ends_nil_iff.mp h
      exact .inl ⟨rfl, (List.cons_prefix_cons.mp hstands).1.symm, hdepth⟩
    | d :: inner', h =>
      obtain ⟨hd, hstands⟩ : d = c ∧ inner' ++ [closer] <+: t := List.cons_prefix_cons.mp h.stands
      subst hd
      exact .inr ⟨inner', rfl, hstands, unescaped_cons hc inner' ▸ h.closes,
        hbehind inner' ▸ h.closed⟩
  · rintro (⟨rfl, rfl, rfl⟩ | ⟨inner', rfl, hstands, hcloses, hclosed⟩)
    · exact ends_nil_iff.mpr ⟨⟨t, rfl⟩, rfl⟩
    · exact ⟨List.cons_prefix_cons.mpr ⟨rfl, hstands⟩, (unescaped_cons hc inner').symm ▸ hcloses,
        (hbehind inner').trans hclosed⟩

theorem not_ends_of_short (hcloser : closer ≠ '\\') (ht : t = [] ∨ t = ['\\']) :
    ¬ Ends opener closer depth t inner := by
  rintro ⟨⟨rest, hrest⟩, -⟩
  have hmem : closer ∈ t := by simp [← hrest]
  rcases ht with rfl | rfl
  · cases hmem
  · exact hcloser (List.mem_singleton.mp hmem)

/-- A character is passed over: `depth'` levels are open behind it. -/
theorem ends_passed {c : Char} (hc : c ≠ '\\') (hdepth : c = closer → depth ≠ 0) {depth' n : Nat}
    (hcloses : ∀ u, Closes opener closer depth (c :: u) ↔ Closes opener closer depth' u)
    {found : Option Nat} (hfound : ∀ n, found = some n ↔
      ∃ inner, n = inner.length + 1 ∧ Ends opener closer depth' t inner) :
    found.map (· + 1) = some n ↔
      ∃ inner, n = inner.length + 1 ∧ Ends opener closer depth (c :: t) inner := by
  simp only [Option.map_eq_some_iff, hfound, ends_cons_iff hc, hcloses]
  constructor
  · rintro ⟨_, ⟨inner, rfl, hends⟩, rfl⟩
    exact ⟨c :: inner, rfl, .inr ⟨inner, rfl, hends.stands, hends.closes, hends.closed⟩⟩
  · rintro ⟨_, rfl, ⟨rfl, hclose, hzero⟩ | ⟨inner, rfl, hstands, hcloses, hclosed⟩⟩
    · exact absurd hzero (hdepth hclose)
    · exact ⟨inner.length + 1, ⟨inner, rfl, hstands, hcloses, hclosed⟩, rfl⟩

/-- **Where a group ends.** -/
theorem close?_eq_some_iff (hne : opener ≠ closer) (hopener : opener ≠ '\\')
    (hcloser : closer ≠ '\\') {n : Nat} : close? opener closer (depth + 1) t = some n ↔
      ∃ inner, n = inner.length + 1 ∧ Ends opener closer depth t inner := by
  generalize hlevels : depth + 1 = levels
  fun_induction close? opener closer levels t generalizing n depth with
  | case1 => simp [not_ends_of_short hcloser]
  | case2 => simp [not_ends_of_short hcloser]
  | case3 levels c rest ih =>
    -- an escaped character
    simp only [Option.map_eq_some_iff, ih hlevels, ends_escape_iff hcloser]
    constructor
    · rintro ⟨_, ⟨inner, rfl, hends⟩, rfl⟩
      exact ⟨_, rfl, inner, rfl, hends⟩
    · rintro ⟨_, rfl, inner, rfl, hends⟩
      exact ⟨_, ⟨inner, rfl, hends⟩, rfl⟩
  | case4 levels rest hlone hpair ih =>
    exact ends_passed hopener (fun h => absurd h hne) (fun _ => closes_opener hne)
      fun n => ih (by omega)
  | case5 rest hlone hpair hne' =>
    obtain rfl : depth = 0 := by omega
    constructor
    · intro h
      cases h
      exact ⟨[], rfl, ends_nil_iff.mpr ⟨⟨rest, rfl⟩, rfl⟩⟩
    · rintro ⟨inner, rfl, hends⟩
      rcases (ends_cons_iff hcloser).mp hends with ⟨rfl, -⟩ | ⟨inner, -, -, hcloses, -⟩
      · rfl
      · exact absurd hcloses (not_closes_closer hne)
  | case6 levels rest hlone hpair hne' hdeep ih =>
    obtain ⟨depth, rfl⟩ : ∃ d, depth = d + 1 := ⟨depth - 1, by omega⟩
    exact ends_passed hcloser (fun _ => Nat.succ_ne_zero _) (fun _ => closes_closer hne)
      fun n => ih (by omega)
  | case7 levels c rest hlone hpair hopener' hcloser' ih =>
    have hc : c ≠ '\\' := by
      intro hc
      cases rest with
      | nil => exact hlone hc rfl
      | cons d rest => exact hpair d rest hc rfl
    exact ends_passed hc (fun h => absurd h hcloser') (fun _ => closes_of_ne hopener' hcloser')
      fun n => ih hlevels

theorem isContent_iff_ends : IsContent opener closer inner ↔
    Ends opener closer 0 (inner ++ closer :: rest) inner := by
  constructor
  · rintro ⟨hbalanced, hclosed⟩
    exact ⟨⟨rest, by simp⟩, balanced_iff_closes.mp hbalanced, hclosed⟩
  · rintro ⟨-, hcloses, hclosed⟩
    exact ⟨balanced_iff_closes.mpr hcloses, hclosed⟩

theorem close?_opener (hopener : opener ≠ '\\') (t : Text) :
    close? opener closer depth (opener :: t) =
      (close? opener closer (depth + 1) t).map (· + 1) := by
  rw [close?, if_pos rfl]
  · exact fun h => absurd h hopener
  · exact fun _ _ h => absurd h hopener

/-- **A group is read** just when it stands at the head of the text, whatever follows it. -/
theorem read?_eq_some_iff (hne : opener ≠ closer) (hopener : opener ≠ '\\')
    (hcloser : closer ≠ '\\') : read? opener closer t = some (inner, rest) ↔
      t = opener :: (inner ++ closer :: rest) ∧ IsContent opener closer inner := by
  have hread : ∀ t, read? opener closer (opener :: t) =
      (close? opener closer 1 t).map fun n => (Text.slice (opener :: t) 1 n, t.drop n) := by
    intro t
    rw [read?, List.head?_cons, if_pos rfl, close?_opener hopener, Option.map_map]
    rfl
  constructor
  · intro h
    obtain rfl := eq_of_read?_eq_some h
    refine ⟨rfl, ?_⟩
    rw [List.cons_append, hread] at h
    obtain ⟨n, hn, hpair⟩ := Option.map_eq_some_iff.mp h
    obtain ⟨inner', rfl, hends⟩ := (close?_eq_some_iff hne hopener hcloser).mp hn
    have hfront : inner' <+: inner ++ closer :: rest :=
      (List.prefix_append inner' [closer]).trans hends.stands
    have hinner : inner' = inner :=
      (List.prefix_iff_eq_take.mp hfront).trans
        (by simpa [Text.slice] using congrArg Prod.fst hpair)
    exact isContent_iff_ends.mpr (hinner ▸ hends)
  · rintro ⟨rfl, hcontent⟩
    have hends : Ends opener closer 0 (inner ++ closer :: rest) inner :=
      isContent_iff_ends.mp hcontent
    rw [hread, (close?_eq_some_iff hne hopener hcloser).mpr ⟨inner, rfl, hends⟩]
    simp [Text.slice]

/-- What stands behind a group does not matter to it. -/
theorem read?_append (hne : opener ≠ closer) (hopener : opener ≠ '\\') (hcloser : closer ≠ '\\')
    (h : read? opener closer t = some (inner, rest)) (more : Text) :
    read? opener closer (t ++ more) = some (inner, rest ++ more) := by
  obtain ⟨rfl, hcontent⟩ := (read?_eq_some_iff hne hopener hcloser).mp h
  exact (read?_eq_some_iff hne hopener hcloser).mpr ⟨by simp, hcontent⟩

/-- **A group around balanced characters** is read as it was written. -/
theorem read?_of_balanced (hne : opener ≠ closer) (hopener : opener ≠ '\\')
    (hcloser : closer ≠ '\\') (ht : '\\' ∉ t) (hbalanced : Balanced opener closer t)
    (rest : Text) : read? opener closer (opener :: (t ++ closer :: rest)) = some (t, rest) :=
  (read?_eq_some_iff hne hopener hcloser).mpr ⟨rfl, isContent_of_not_mem ht hbalanced⟩

/-! ### Groups behind blanks -/

/-- The characters that may stand in front of an argument. -/
def IsSpace (c : Char) : Prop := c = ' ' ∨ c = '\t' ∨ c = '\r' ∨ c = '\n'

instance (c : Char) : Decidable (IsSpace c) := inferInstanceAs (Decidable (_ ∨ _))

/-- What may stand in front of an argument: blanks, and one line break at most. -/
structure IsGap (gap : Text) : Prop where
  spaces : ∀ c ∈ gap, IsSpace c
  unbroken : gap.count '\n' ≤ 1

theorem IsGap.of_prefix {gap : Text} (h : IsGap gap) (ht : t <+: gap) : IsGap t :=
  ⟨fun c hc => h.spaces c (ht.subset hc), (ht.sublist.count_le '\n').trans h.unbroken⟩

theorem IsGap.not_mem {gap : Text} (h : IsGap gap) : '\\' ∉ gap := fun hmem =>
  absurd (h.spaces _ hmem) (by decide)

/-- The group that **follows** at the head of a text: what it holds, and what stands behind it. -/
def Follows (opener closer : Char) (t inner rest : Text) : Prop :=
  ∃ gap, IsGap gap ∧ t = gap ++ opener :: (inner ++ closer :: rest) ∧ IsContent opener closer inner

theorem skipSpacesFrom_append {broken : Bool} (h : skipSpacesFrom broken t ≠ []) (more : Text) :
    skipSpacesFrom broken (t ++ more) = skipSpacesFrom broken t ++ more := by
  fun_induction skipSpacesFrom broken t with
  | case1 => exact absurd rfl h
  | case2 rest => rfl
  | case3 broken rest hbroken ih =>
    simpa [skipSpacesFrom, hbroken] using ih h
  | case4 broken c rest hbreak hspace ih =>
    simpa [skipSpacesFrom, hbreak, hspace] using ih h
  | case5 broken c rest hbreak hspace =>
    simp [skipSpacesFrom, hbreak, hspace]

theorem skipSpaces_append (h : skipSpaces t ≠ []) (more : Text) :
    skipSpaces (t ++ more) = skipSpaces t ++ more := skipSpacesFrom_append h more

theorem skipSpacesFrom_eq_cons_iff (hopener : ¬ IsSpace opener) (broken : Bool) :
    skipSpacesFrom broken t = opener :: rest ↔ ∃ gap, t = gap ++ opener :: rest ∧
      (∀ c ∈ gap, IsSpace c) ∧ gap.count '\n' + broken.toNat ≤ 1 := by
  induction t generalizing broken with
  | nil => simp [skipSpacesFrom]
  | cons c t ih =>
    -- the gap is empty, or it begins with the first character
    have hcases : (∃ gap, c :: t = gap ++ opener :: rest ∧ (∀ c ∈ gap, IsSpace c) ∧
          gap.count '\n' + broken.toNat ≤ 1) ↔
        (c = opener ∧ t = rest) ∨ (IsSpace c ∧ ∃ gap, t = gap ++ opener :: rest ∧
          (∀ c ∈ gap, IsSpace c) ∧ (c :: gap).count '\n' + broken.toNat ≤ 1) := by
      constructor
      · rintro ⟨gap, htext, hspaces, hcount⟩
        cases gap with
        | nil => exact .inl (List.cons.inj htext)
        | cons d gap =>
          obtain ⟨rfl, hrest⟩ := List.cons.inj htext
          obtain ⟨hc, hspaces⟩ := List.forall_mem_cons.mp hspaces
          exact .inr ⟨hc, gap, hrest, hspaces, hcount⟩
      · rintro (⟨rfl, rfl⟩ | ⟨hc, gap, rfl, hspaces, hcount⟩)
        · exact ⟨[], rfl, nofun, by cases broken <;> simp⟩
        · exact ⟨c :: gap, rfl, List.forall_mem_cons.mpr ⟨hc, hspaces⟩, hcount⟩
    rw [hcases, skipSpacesFrom]
    by_cases hbreak : c = '\n'
    · subst hbreak
      have hother : '\n' ≠ opener := fun h => hopener (h ▸ .inr (.inr (.inr rfl)))
      cases broken with
      | true => simp [hother]
      | false => simp [hother, ih, IsSpace]
    · rw [if_neg hbreak]
      by_cases hspace : c = ' ' ∨ c = '\t' ∨ c = '\r'
      · have hc : IsSpace c := by
          unfold IsSpace
          tauto
        have hother : c ≠ opener := fun h => hopener (h ▸ hc)
        simp [hspace, hother, hc, ih, List.count_cons_of_ne hbreak]
      · have hc : ¬ IsSpace c := by
          unfold IsSpace
          tauto
        simp [hspace, hc]

/-- **A group behind blanks is read** just when it follows. -/
theorem read?_skipSpaces_eq_some_iff (hne : opener ≠ closer) (hopener : opener ≠ '\\')
    (hcloser : closer ≠ '\\') (hspace : ¬ IsSpace opener) :
    read? opener closer (skipSpaces t) = some (inner, rest) ↔
      Follows opener closer t inner rest := by
  rw [read?_eq_some_iff hne hopener hcloser, skipSpaces, skipSpacesFrom_eq_cons_iff hspace]
  constructor
  · rintro ⟨⟨gap, rfl, hspaces, hcount⟩, hcontent⟩
    exact ⟨gap, ⟨hspaces, hcount⟩, rfl, hcontent⟩
  · rintro ⟨gap, ⟨hspaces, hcount⟩, rfl, hcontent⟩
    exact ⟨⟨gap, rfl, hspaces, hcount⟩, hcontent⟩

theorem braces?_skipSpaces_eq_some_iff :
    braces? (skipSpaces t) = some (inner, rest) ↔ Follows '{' '}' t inner rest :=
  read?_skipSpaces_eq_some_iff (by decide) (by decide) (by decide) (by decide)

theorem brackets?_skipSpaces_eq_some_iff :
    brackets? (skipSpaces t) = some (inner, rest) ↔ Follows '[' ']' t inner rest :=
  read?_skipSpaces_eq_some_iff (by decide) (by decide) (by decide) (by decide)

end TexMark.Group
