/-
  TexMark/Proofs/Layout/Tidying.lean
  ==================================
  **Tidy texts.**  `Layout.tidy` works on characters: it drops blanks at the ends of lines, and
  then all but two line feeds of each run.  What this does to the lines of a text is said here:
  the written lines stay, each without the blanks at its end, and of the empty lines between two
  of them one is left (`gaps_shortened`).

    * `shortened` — what becomes of the lines when runs of line feeds are shortened;
    * `tidy_eq_self_iff` — the texts that are left as they are;
    * `tidied_of_tidy` — all of this for every text.
-/
import TexMark.Layout
import TexMark.Proofs.Lines

namespace TexMark.Layout

open Text (isLineBlank lines trimEnd unlines)

/-! ### Ends of lines -/

/-- No blank or tab stands in front of a line feed, or at the end of the text. -/
def Trimmed (t : Text) : Prop :=
  ∀ u c v, t = u ++ c :: v → isLineBlank c → ∃ d ∈ v.head?, d ≠ '\n'

theorem lines_trimLines (t : Text) :
    lines (trimLines t) = (lines t).map (trimEnd isLineBlank) := by
  obtain ⟨l, ls, hlines⟩ := List.exists_cons_of_ne_nil (Text.splitOn_ne_nil '\n' t)
  have hlines' : lines t = l :: ls := hlines
  rw [trimLines, hlines', List.map_cons]
  apply Text.lines_unlines
  rw [← List.map_cons, ← hlines']
  intro x hx hfeed
  obtain ⟨line, hline, rfl⟩ := List.mem_map.mp hx
  exact (Text.exists_of_mem_lines hline).1 ((List.rdropWhile_prefix _ line).subset hfeed)

theorem trimEnd_of_mem_map {l : Text} {ls : List Text}
    (h : l ∈ ls.map (trimEnd isLineBlank)) : trimEnd isLineBlank l = l := by
  obtain ⟨line, -, rfl⟩ := List.mem_map.mp h
  exact List.rdropWhile_idempotent isLineBlank line

theorem trimmed_iff (t : Text) :
    Trimmed t ↔ ∀ l ∈ lines t, trimEnd isLineBlank l = l := by
  constructor
  · intro h l hl
    apply List.rdropWhile_eq_self_iff.mpr
    intro hne hblank
    obtain ⟨-, u, v, rfl, -, hend⟩ := Text.exists_line_of_mem_lines hl
    have hsplit : u ++ (l ++ v) = (u ++ l.dropLast) ++ l.getLast hne :: v := by
      conv_lhs => rw [← List.dropLast_append_getLast hne]
      simp
    obtain ⟨d, hd, hne'⟩ := h _ _ _ hsplit hblank
    exact hne' (hend d hd)
  · intro h u c v ht hblank
    -- otherwise the line would end with `c`
    by_contra hend
    have hfeed : c ≠ '\n' := by
      rintro rfl
      revert hblank
      decide
    have hlast : Text.lastLine (u ++ [c]) = Text.lastLine u ++ [c] :=
      Text.lastLine_append_of_not_mem u (by simpa using hfeed.symm)
    obtain ⟨ls, hlines, -⟩ := Text.exists_lines (u ++ [c])
    have hline : Text.lastLine u ++ [c] ∈ lines t := by
      cases v with
      | nil =>
        rw [ht, hlines, hlast]
        exact List.mem_append_right _ (List.mem_singleton_self _)
      | cons d v =>
        have hd : d = '\n' := by
          by_contra hd
          exact hend ⟨d, rfl, hd⟩
        have ht' : t = (u ++ [c]) ++ '\n' :: v := by rw [ht, hd, List.append_assoc]; rfl
        rw [ht', Text.lines_append_feed, hlines, hlast]
        simp
    have hkept := List.rdropWhile_eq_self_iff.mp (h _ hline) (by simp)
    rw [List.getLast_append_singleton] at hkept
    exact hkept hblank

/-! ### Runs of line feeds -/

/-- Nowhere do three line feeds follow each other, of which `passed` stand in front of the text. -/
def FewFeeds (passed : Nat) : Text → Prop
  | [] => True
  | c :: t => if c = '\n' then passed < 2 ∧ FewFeeds (passed + 1) t else FewFeeds 0 t

theorem fewFeeds_iff {passed : Nat} (hpassed : passed ≤ 2) (t : Text) :
    FewFeeds passed t ↔ ¬ ['\n', '\n', '\n'] <:+: List.replicate passed '\n' ++ t := by
  induction t generalizing passed with
  | nil =>
    have hshort : ¬ ['\n', '\n', '\n'] <:+: List.replicate passed '\n' := by
      intro h
      have := h.length_le
      simp only [List.length_cons, List.length_nil, List.length_replicate] at this
      omega
    simpa [FewFeeds] using hshort
  | cons c t ih =>
    rw [FewFeeds]
    split
    · rename_i hc
      subst hc
      rcases Nat.lt_or_ge passed 2 with hlt | hge
      · rw [ih hlt, List.replicate_succ', List.append_assoc]
        exact and_iff_right hlt
      · obtain rfl : passed = 2 := by omega
        have hrun : ['\n', '\n', '\n'] <:+: List.replicate 2 '\n' ++ '\n' :: t :=
          ⟨[], t, rfl⟩
        exact iff_of_false (fun h => Nat.lt_irrefl 2 h.1) fun h => h hrun
    · rename_i hc
      rw [ih (Nat.zero_le 2)]
      -- a run does not go on over a character that is no line feed
      match passed, hpassed with
      | 0, _ => simp [List.infix_cons_iff, Ne.symm hc]
      | 1, _ => simp [List.replicate_succ, List.infix_cons_iff, Ne.symm hc]
      | 2, _ => simp [List.replicate_succ, List.infix_cons_iff, Ne.symm hc]

theorem fewFeeds_shortenRuns (passed : Nat) (t : Text) : FewFeeds passed (shortenRuns passed t) := by
  fun_induction shortenRuns passed t with
  | case1 => trivial
  | case2 passed rest hlt ih =>
    rw [FewFeeds, if_pos rfl]
    exact ⟨hlt, ih⟩
  | case3 passed rest hge ih => exact ih
  | case4 passed c rest hc ih =>
    rw [FewFeeds, if_neg hc]
    exact ih

theorem shortenRuns_eq_self {passed : Nat} {t : Text} (h : FewFeeds passed t) :
    shortenRuns passed t = t := by
  fun_induction shortenRuns passed t with
  | case1 => rfl
  | case2 passed rest hlt ih =>
    rw [FewFeeds, if_pos rfl] at h
    rw [ih h.2]
  | case3 passed rest hge ih =>
    rw [FewFeeds, if_pos rfl] at h
    exact absurd h.1 hge
  | case4 passed c rest hc ih =>
    rw [FewFeeds, if_neg hc] at h
    rw [ih h]

theorem shortenRuns_sublist (passed : Nat) (t : Text) : (shortenRuns passed t).Sublist t := by
  fun_induction shortenRuns passed t with
  | case1 => exact List.Sublist.refl _
  | case2 passed rest hlt ih => exact ih.cons_cons '\n'
  | case3 passed rest hge ih => exact ih.cons '\n'
  | case4 passed c rest hc ih => exact ih.cons_cons c

/-! ### What is kept -/

/-- The characters that are dropped in places. -/
def isSpacing (c : Char) : Bool := isLineBlank c || c == '\n'

theorem filter_shortenRuns (passed : Nat) (t : Text) :
    (shortenRuns passed t).filter (!isSpacing ·) = t.filter (!isSpacing ·) := by
  fun_induction shortenRuns passed t with
  | case1 => rfl
  | case2 passed rest hlt ih => rw [List.filter_cons, List.filter_cons, ih]
  | case3 passed rest hge ih =>
    rw [ih, List.filter_cons_of_neg]
    simp [isSpacing]
  | case4 passed c rest hc ih => rw [List.filter_cons, List.filter_cons, ih]

theorem filter_trimEnd (l : Text) :
    (trimEnd isLineBlank l).filter (!isSpacing ·) = l.filter (!isSpacing ·) := by
  have hblanks : (l.rtakeWhile isLineBlank).filter (!isSpacing ·) = [] := by
    rw [List.filter_eq_nil_iff]
    intro c hc
    simp [isSpacing, List.mem_rtakeWhile_imp hc]
  conv_rhs => rw [← List.rdropWhile_append_rtakeWhile (p := isLineBlank) (l := l)]
  rw [List.filter_append, hblanks, List.append_nil]
  rfl

theorem unlines_map_sublist {f : Text → Text} (hf : ∀ l, (f l).Sublist l) (ls : List Text) :
    (unlines (ls.map f)).Sublist (unlines ls) := by
  cases ls with
  | nil => exact List.Sublist.refl _
  | cons l ls =>
    rw [List.map_cons, Text.unlines_cons, Text.unlines_cons]
    refine (hf l).append ?_
    induction ls with
    | nil => exact List.Sublist.refl _
    | cons m ls ih => exact ((hf m).cons_cons '\n').append ih

theorem filter_unlines_map {f : Text → Text} {p : Char → Bool}
    (hf : ∀ l, (f l).filter p = l.filter p) (ls : List Text) :
    (unlines (ls.map f)).filter p = (unlines ls).filter p := by
  cases ls with
  | nil => rfl
  | cons l ls =>
    rw [List.map_cons, Text.unlines_cons, Text.unlines_cons, List.filter_append,
      List.filter_append, hf l]
    congr 1
    induction ls with
    | nil => rfl
    | cons m ls ih =>
      simp only [List.map_cons, List.flatMap_cons, List.filter_append, List.cons_append,
        List.filter_cons, hf m, ih]

theorem tidy_sublist (t : Text) : (tidy t).Sublist t := by
  refine (shortenRuns_sublist 0 (trimLines t)).trans ?_
  have htrim : ∀ l, (trimEnd isLineBlank l).Sublist l :=
    fun l => (List.rdropWhile_prefix isLineBlank l).sublist
  have hlines := unlines_map_sublist htrim (lines t)
  rwa [show unlines (lines t) = t from Text.join_splitOn '\n' t] at hlines

theorem filter_tidy (t : Text) : (tidy t).filter (!isSpacing ·) = t.filter (!isSpacing ·) := by
  have hlines := filter_unlines_map filter_trimEnd (lines t)
  rw [show unlines (lines t) = t from Text.join_splitOn '\n' t] at hlines
  rw [tidy, filter_shortenRuns]
  exact hlines

/-! ### Lines of a text with shortened runs -/

/-- The lines that are left of some lines when runs of line feeds are shortened: `passed` feeds
    stand in front of the first line. -/
def shortened (passed : Nat) : List Text → List Text
  | [] => []
  | [l] => [l]
  | l :: m :: ls =>
    let passed' := if l.isEmpty then passed else 0
    if passed' < 2 then l :: shortened (passed' + 1) (m :: ls) else shortened passed' (m :: ls)

/-- The first line can go on with what stands in front of it. -/
theorem shortened_append_left {u : Text} (hu : u ≠ []) (passed : Nat) {l : Text} {ls ms : List Text}
    (h : shortened 0 (l :: ls) = l :: ms) : shortened passed ((u ++ l) :: ls) = (u ++ l) :: ms := by
  have hwritten : (u ++ l).isEmpty = false := by simp [hu]
  cases ls with
  | nil =>
    simp only [shortened, List.cons.injEq, true_and] at h ⊢
    exact h
  | cons m ls =>
    simp only [shortened, ite_self, Nat.zero_lt_two, if_true, List.cons.injEq, true_and] at h
    simp only [shortened, hwritten, Bool.false_eq_true, if_false, Nat.zero_lt_two, if_true, h]

theorem exists_shortened_zero (l : Text) (ls : List Text) :
    ∃ ms, shortened 0 (l :: ls) = l :: ms := by
  cases ls with
  | nil => exact ⟨[], rfl⟩
  | cons m ls => exact ⟨shortened 1 (m :: ls), by simp [shortened]⟩

theorem lines_shortenRuns (passed : Nat) (t : Text) :
    lines (shortenRuns passed t) = shortened passed (lines t) := by
  have hfeed : ∀ rest, lines ('\n' :: rest) = [] :: lines rest := fun rest =>
    Text.lines_append (u := []) nofun rest
  have hcons : ∀ rest, ∃ m ls, lines rest = m :: ls := fun rest =>
    List.exists_cons_of_ne_nil (Text.splitOn_ne_nil '\n' rest)
  fun_induction shortenRuns passed t with
  | case1 => rfl
  | case2 passed rest hlt ih =>
    obtain ⟨m, ls, hrest⟩ := hcons rest
    rw [hrest] at ih
    rw [hfeed, hfeed, ih, hrest]
    simp [shortened, hlt]
  | case3 passed rest hge ih =>
    obtain ⟨m, ls, hrest⟩ := hcons rest
    rw [hrest] at ih
    rw [hfeed, ih, hrest]
    simp [shortened, hge]
  | case4 passed c rest hc ih =>
    obtain ⟨m, ls, hrest⟩ := hcons rest
    have hc' : '\n' ∉ [c] := by simpa using Ne.symm hc
    obtain ⟨ms, hms⟩ := exists_shortened_zero m ls
    rw [hrest, hms] at ih
    have hleft : lines (c :: rest) = ([c] ++ m) :: ls := Text.lines_append_left hc' hrest
    have hkept : lines (c :: shortenRuns 0 rest) = ([c] ++ m) :: ms := Text.lines_append_left hc' ih
    rw [hleft, hkept, shortened_append_left (List.cons_ne_nil c []) passed hms]

theorem mem_of_mem_shortened {passed : Nat} {l : Text} {ls : List Text}
    (h : l ∈ shortened passed ls) : l ∈ ls := by
  fun_induction shortened passed ls with
  | case1 => exact h
  | case2 => exact h
  | case3 passed m n ls passed' hlt ih =>
    rcases List.mem_cons.mp h with rfl | h
    · exact List.mem_cons_self
    · exact List.mem_cons_of_mem _ (ih h)
  | case4 passed m n ls passed' hge ih => exact List.mem_cons_of_mem _ (ih h)

/-! ### Written lines and the gaps between them -/

/-- A **written** line holds something other than blanks and tabs. -/
def isWritten (l : Text) : Bool := l.any (!isLineBlank ·)

/-- The numbers of empty lines from a place on between each written line and the next one; `empty`
    of them stand between the place and the written line in front of it. -/
def gapsBehind (empty : Nat) : List Text → List Nat
  | [] => []
  | l :: ls => if isWritten l then empty :: gapsBehind 0 ls else gapsBehind (empty + 1) ls

/-- The numbers of empty lines between each written line and the next one. -/
def gaps : List Text → List Nat
  | [] => []
  | l :: ls => if isWritten l then gapsBehind 0 ls else gaps ls

theorem isWritten_trimEnd (l : Text) : isWritten (trimEnd isLineBlank l) = isWritten l := by
  have hblanks : (l.rtakeWhile isLineBlank).any (!isLineBlank ·) = false := by
    rw [List.any_eq_false]
    intro c hc
    simp [List.mem_rtakeWhile_imp hc]
  conv_rhs => rw [← List.rdropWhile_append_rtakeWhile (p := isLineBlank) (l := l)]
  rw [isWritten, isWritten, List.any_append, hblanks, Bool.or_false]
  rfl

/-- Without blanks at its end a line is written if there is anything on it. -/
theorem isWritten_of_trimmed {l : Text} (htrim : trimEnd isLineBlank l = l) (hne : l ≠ []) :
    isWritten l = true := by
  have hlast := List.rdropWhile_eq_self_iff.mp htrim hne
  exact List.any_eq_true.mpr ⟨_, List.getLast_mem hne, by simpa using hlast⟩

theorem gaps_map_trimEnd (ls : List Text) : gaps (ls.map (trimEnd isLineBlank)) = gaps ls := by
  have hbehind : ∀ empty ls,
      gapsBehind empty (ls.map (trimEnd isLineBlank)) = gapsBehind empty ls := by
    intro empty ls
    induction ls generalizing empty with
    | nil => rfl
    | cons l ls ih => simp only [List.map_cons, gapsBehind, isWritten_trimEnd, ih]
  induction ls with
  | nil => rfl
  | cons l ls ih => simp only [List.map_cons, gaps, isWritten_trimEnd, hbehind, ih]

section

variable {ls : List Text} (hls : ∀ l ∈ ls, trimEnd isLineBlank l = l)

include hls

theorem filter_shortened (passed : Nat) :
    (shortened passed ls).filter isWritten = ls.filter isWritten := by
  fun_induction shortened passed ls with
  | case1 => rfl
  | case2 => rfl
  | case3 passed l m ls passed' hlt ih =>
    rw [List.filter_cons, List.filter_cons, ih fun x hx => hls x (List.mem_cons_of_mem l hx)]
  | case4 passed l m ls passed' hge ih =>
    -- only an empty line is left out
    have hempty : l = [] := by
      by_contra hne
      simp [passed', hne] at hge
    rw [ih fun x hx => hls x (List.mem_cons_of_mem l hx), hempty]
    rfl

/-- Behind a written line as many line feeds have been passed as there are empty lines, and one. -/
theorem gapsBehind_shortened (empty : Nat) :
    gapsBehind (min empty 1) (shortened (min empty 1 + 1) ls) =
      (gapsBehind empty ls).map (min · 1) := by
  induction ls generalizing empty with
  | nil => rfl
  | cons l ls ih =>
    obtain ⟨htrim, hls'⟩ := List.forall_mem_cons.mp hls
    cases ls with
    | nil => by_cases hl : isWritten l <;> simp [shortened, gapsBehind, hl]
    | cons m ls =>
      by_cases hne : l = []
      · subst hne
        have hempty : isWritten [] = false := rfl
        have hrest := ih hls' (empty + 1)
        rw [Nat.min_eq_right (Nat.le_add_left 1 empty)] at hrest
        cases empty with
        | zero => simpa [shortened, gapsBehind, hempty] using hrest
        | succ empty =>
          rw [Nat.min_eq_right (Nat.le_add_left 1 empty)]
          simpa [shortened, gapsBehind, hempty] using hrest
      · have hwritten := isWritten_of_trimmed htrim hne
        have hrest := ih hls' 0
        simpa [shortened, gapsBehind, hwritten, hne] using hrest

/-- **One empty line is left** where there were some. -/
theorem gaps_shortened (passed : Nat) :
    gaps (shortened passed ls) = (gaps ls).map (min · 1) := by
  fun_induction shortened passed ls with
  | case1 => rfl
  | case2 passed l => by_cases hl : isWritten l <;> simp [gaps, gapsBehind, hl]
  | case3 passed l m ls passed' hlt ih =>
    obtain ⟨htrim, hls⟩ := List.forall_mem_cons.mp hls
    by_cases hne : l = []
    · have hempty : isWritten [] = false := rfl
      simpa [gaps, hne, hempty] using ih hls
    · have hzero : passed' = 0 := by simp [passed', hne]
      rw [hzero, gaps, gaps, if_pos (isWritten_of_trimmed htrim hne),
        if_pos (isWritten_of_trimmed htrim hne)]
      exact gapsBehind_shortened hls 0
  | case4 passed l m ls passed' hge ih =>
    obtain ⟨-, hls⟩ := List.forall_mem_cons.mp hls
    have hempty : l = [] := by
      by_contra hne
      simp [passed', hne] at hge
    rw [ih hls, hempty]
    rfl

end

/-- The written line number `i` and the next one have `n` lines **between** them, all of them
    empty but for blanks and tabs. -/
def Between (i n : Nat) (ls : List Text) : Prop :=
  ∃ before a empty b behind, ls = before ++ a :: (empty ++ b :: behind) ∧
    before.countP isWritten = i ∧ isWritten a ∧ isWritten b ∧
    (∀ l ∈ empty, isWritten l = false) ∧ empty.length = n

/-- Up to the next written line the empty ones are counted. -/
theorem gapsBehind_append {empty : List Text} (hempty : ∀ l ∈ empty, isWritten l = false) {b : Text}
    (hb : isWritten b) (n : Nat) (behind : List Text) :
    gapsBehind n (empty ++ b :: behind) = (n + empty.length) :: gaps (b :: behind) := by
  induction empty generalizing n with
  | nil => simp only [List.nil_append, gapsBehind, gaps, hb, if_true, List.length_nil, Nat.add_zero]
  | cons l empty ih =>
    obtain ⟨hl, hempty⟩ := List.forall_mem_cons.mp hempty
    simp only [List.cons_append, gapsBehind, hl, Bool.false_eq_true, if_false, ih hempty,
      List.length_cons, Nat.add_assoc, Nat.add_comm 1]

theorem gaps_append {empty : List Text} (hempty : ∀ l ∈ empty, isWritten l = false)
    (ls : List Text) : gaps (empty ++ ls) = gaps ls := by
  induction empty with
  | nil => rfl
  | cons l empty ih =>
    obtain ⟨hl, hempty⟩ := List.forall_mem_cons.mp hempty
    rw [List.cons_append, gaps, hl, if_neg Bool.false_ne_true, ih hempty]

theorem gapsBehind_cases (n : Nat) (ls : List Text) : gapsBehind n ls = [] ∨
    ∃ empty b behind, ls = empty ++ b :: behind ∧ (∀ l ∈ empty, isWritten l = false) ∧
      isWritten b := by
  induction ls generalizing n with
  | nil => exact .inl rfl
  | cons l ls ih =>
    by_cases hl : isWritten l
    · exact .inr ⟨[], l, ls, rfl, nofun, hl⟩
    · rw [gapsBehind, if_neg hl]
      refine (ih (n + 1)).imp id ?_
      rintro ⟨empty, b, behind, rfl, hempty, hb⟩
      refine ⟨l :: empty, b, behind, rfl, List.forall_mem_cons.mpr ⟨?_, hempty⟩, hb⟩
      exact Bool.eq_false_iff.mpr hl

/-- A written line has its number in the list of gaps. -/
theorem drop_gapsBehind {a : Text} (ha : isWritten a) (n : Nat) (before ls : List Text) :
    (gapsBehind n (before ++ a :: ls)).drop (before.countP isWritten + 1) = gapsBehind 0 ls := by
  induction before generalizing n with
  | nil => rw [List.nil_append, gapsBehind, if_pos ha]; rfl
  | cons l before ih =>
    by_cases hl : isWritten l
    · rw [List.cons_append, gapsBehind, if_pos hl, List.countP_cons_of_pos hl, List.drop_succ_cons,
        ih]
    · rw [List.cons_append, gapsBehind, if_neg hl, List.countP_cons_of_neg hl, ih]

theorem drop_gaps {a : Text} (ha : isWritten a) (before ls : List Text) :
    (gaps (before ++ a :: ls)).drop (before.countP isWritten) = gapsBehind 0 ls := by
  induction before with
  | nil => rw [List.nil_append, gaps, if_pos ha]; rfl
  | cons l before ih =>
    by_cases hl : isWritten l
    · rw [List.cons_append, gaps, if_pos hl, List.countP_cons_of_pos hl, drop_gapsBehind ha]
    · rw [List.cons_append, gaps, if_neg hl, List.countP_cons_of_neg hl, ih]

theorem between_of_gaps {i n : Nat} {ls : List Text} (h : (gaps ls)[i]? = some n) :
    Between i n ls := by
  induction ls generalizing i with
  | nil => cases h
  | cons l ls ih =>
    by_cases hl : isWritten l
    · rw [gaps, if_pos hl] at h
      rcases gapsBehind_cases 0 ls with hnil | ⟨empty, b, behind, rfl, hempty, hb⟩
      · rw [hnil] at h
        cases h
      · have hgaps := gapsBehind_append hempty hb 0 behind
        rw [hgaps] at h
        cases i with
        | zero =>
          obtain rfl : 0 + empty.length = n := by simpa using h
          exact ⟨[], l, empty, b, behind, rfl, rfl, hl, hb, hempty, (Nat.zero_add _).symm⟩
        | succ i =>
          rw [List.getElem?_cons_succ, ← gaps_append hempty] at h
          obtain ⟨before, a, empty', b', behind', heq, hcount, hothers⟩ := ih h
          refine ⟨l :: before, a, empty', b', behind', by rw [heq, List.cons_append], ?_, hothers⟩
          rw [List.countP_cons_of_pos hl, hcount]
    · rw [gaps, if_neg hl] at h
      obtain ⟨before, a, empty, b, behind, rfl, hcount, hothers⟩ := ih h
      refine ⟨l :: before, a, empty, b, behind, rfl, ?_, hothers⟩
      rw [List.countP_cons_of_neg hl, hcount]

/-- **The gaps tell what lies between two written lines.** -/
theorem between_iff {i n : Nat} {ls : List Text} : Between i n ls ↔ (gaps ls)[i]? = some n := by
  refine ⟨?_, between_of_gaps⟩
  rintro ⟨before, a, empty, b, behind, rfl, rfl, ha, hb, hempty, rfl⟩
  have hdrop := drop_gaps ha before (empty ++ b :: behind)
  rw [gapsBehind_append hempty hb, Nat.zero_add] at hdrop
  rw [← List.head?_drop, hdrop]
  rfl

/-! ### Tidy texts -/

theorem trimEnd_of_mem_tidy {t l : Text} (hl : l ∈ lines (tidy t)) :
    trimEnd isLineBlank l = l := by
  rw [tidy, lines_shortenRuns, lines_trimLines] at hl
  exact trimEnd_of_mem_map (mem_of_mem_shortened hl)

theorem fewFeeds_tidy (t : Text) : ¬ ['\n', '\n', '\n'] <:+: tidy t :=
  (fewFeeds_iff (Nat.zero_le 2) _).mp (fewFeeds_shortenRuns 0 (trimLines t))

/-- **The normal form**: what is left as it is has no blanks at the ends of lines and no three
    line feeds behind each other. -/
theorem tidy_eq_self_iff (t : Text) :
    tidy t = t ↔ Trimmed t ∧ ¬ ['\n', '\n', '\n'] <:+: t := by
  constructor
  · intro h
    have htrimmed := (trimmed_iff (tidy t)).mpr fun l => trimEnd_of_mem_tidy
    have hfew := fewFeeds_tidy t
    rw [h] at htrimmed hfew
    exact ⟨htrimmed, hfew⟩
  · rintro ⟨htrimmed, hfew⟩
    have hlines : trimLines t = t := by
      rw [trimLines, List.map_congr_left ((trimmed_iff t).mp htrimmed), List.map_id']
      exact Text.join_splitOn '\n' t
    rw [tidy, hlines]
    exact shortenRuns_eq_self ((fewFeeds_iff (Nat.zero_le 2) t).mpr hfew)

theorem gaps_tidy (t : Text) : gaps (lines (tidy t)) = (gaps (lines t)).map (min · 1) := by
  rw [tidy, lines_shortenRuns, lines_trimLines, gaps_shortened fun l => trimEnd_of_mem_map,
    gaps_map_trimEnd]

/-- A text is **tidied** into another one. -/
structure Tidied (text out : Text) : Prop where
  trimmed : Trimmed out
  few : ¬ ['\n', '\n', '\n'] <:+: out
  again : tidy out = out
  /-- Nothing but blanks, tabs and line feeds is dropped, and nothing is put in. -/
  dropped : out.Sublist text ∧ out.filter (!isSpacing ·) = text.filter (!isSpacing ·)
  /-- The written lines are those of the text, without the blanks at their ends. -/
  written : (lines out).filter isWritten =
    ((lines text).filter isWritten).map (trimEnd isLineBlank)
  neighbours : ∀ i, Between i 0 (lines out) ↔ Between i 0 (lines text)
  separated : ∀ i, Between i 1 (lines out) ↔ ∃ n, 1 ≤ n ∧ Between i n (lines text)

/-- **Every text is tidied**: written lines that follow each other still do, and where there were
    empty lines between them there is one. -/
theorem tidied_of_tidy (text : Text) : Tidied text (tidy text) := by
  have htrimmed := (trimmed_iff (tidy text)).mpr fun l => trimEnd_of_mem_tidy
  have hfew := fewFeeds_tidy text
  refine ⟨htrimmed, hfew, (tidy_eq_self_iff _).mpr ⟨htrimmed, hfew⟩,
    ⟨tidy_sublist text, filter_tidy text⟩, ?_, fun i => ?_, fun i => ?_⟩
  · rw [tidy, lines_shortenRuns, lines_trimLines, filter_shortened fun l => trimEnd_of_mem_map,
      List.filter_map]
    congr 1
    exact List.filter_congr fun l _ => isWritten_trimEnd l
  · rw [between_iff, between_iff, gaps_tidy, List.getElem?_map, Option.map_eq_some_iff]
    constructor
    · rintro ⟨n, hn, hzero⟩
      obtain rfl : n = 0 := by omega
      exact hn
    · exact fun h => ⟨0, h, rfl⟩
  · rw [between_iff, gaps_tidy, List.getElem?_map, Option.map_eq_some_iff]
    constructor
    · rintro ⟨n, hn, hone⟩
      exact ⟨n, by omega, between_iff.mpr hn⟩
    · rintro ⟨n, hn, hbetween⟩
      exact ⟨n, between_iff.mp hbetween, by omega⟩

end TexMark.Layout
