/-
  TexMark/Proofs/Settings/Lines.lean
  ==================================
  **Lines that end in many ways.**  Every line boundary is the end of a line, so where a line is
  ended by a line feed the lines in front and those behind are split apart
  (`splitLines_append_feed`), and it does not matter whether line ends have been unified before
  (`splitLines_unifyLineFeeds`).
-/
import TexMark.Proofs.Lines
import TexMark.Text.LineBreak

namespace TexMark.Text

theorem isBlank_of_isLineBoundary {c : Char} (h : isLineBoundary c) : isBlank c := by
  unfold isLineBoundary at h
  unfold isBlank
  grind

/-! ### One character -/

theorem splitLinesFrom_feed (line : Option Text) (t : Text) :
    splitLinesFrom line ('\n' :: t) = line.getD [] :: splitLinesFrom none t := by
  rw [splitLinesFrom]
  · rfl
  · simp

theorem splitLinesFrom_of_not_boundary {c : Char} (hc : isLineBoundary c = false)
    (line : Option Text) (t : Text) :
    splitLinesFrom line (c :: t) = splitLinesFrom (some (line.getD [] ++ [c])) t := by
  rw [splitLinesFrom]
  · simp [hc]
  · rintro rest rfl
    cases hc

/-- A boundary ends the line; a carriage return takes the line feed behind it with it. -/
theorem splitLinesFrom_boundary {c : Char} (hc : isLineBoundary c) {t : Text}
    (hpair : c = '\r' → t.head? ≠ some '\n') (line : Option Text) :
    splitLinesFrom line (c :: t) = line.getD [] :: splitLinesFrom none t := by
  rw [splitLinesFrom]
  · simp [hc]
  · rintro rest rfl rfl
    exact hpair rfl rfl

theorem splitLinesFrom_pair (line : Option Text) (t : Text) :
    splitLinesFrom line ('\r' :: '\n' :: t) = line.getD [] :: splitLinesFrom none t := by
  rw [splitLinesFrom]

/-- With something to come, a line that is to begin is one that is under way and empty. -/
theorem splitLinesFrom_none {t : Text} (h : t ≠ []) :
    splitLinesFrom none t = splitLinesFrom (some []) t := by
  obtain ⟨c, rest, rfl⟩ := List.exists_cons_of_ne_nil h
  by_cases hpair : c = '\r' ∧ rest.head? = some '\n'
  · obtain ⟨rfl, hhead⟩ := hpair
    obtain ⟨rest, rfl⟩ := List.head?_eq_some_iff.mp hhead
    rw [splitLinesFrom_pair, splitLinesFrom_pair]
    rfl
  · cases hc : isLineBoundary c with
    | false =>
      rw [splitLinesFrom_of_not_boundary hc, splitLinesFrom_of_not_boundary hc]
      rfl
    | true =>
      have hhead : c = '\r' → rest.head? ≠ some '\n' := fun hr hn => hpair ⟨hr, hn⟩
      rw [splitLinesFrom_boundary hc hhead, splitLinesFrom_boundary hc hhead]
      rfl

/-! ### Texts -/

/-- The lines in front of a line feed and those behind it. -/
theorem splitLinesFrom_append_feed (line : Option Text) (a b : Text) :
    splitLinesFrom line (a ++ '\n' :: b) =
      splitLinesFrom line (a ++ ['\n']) ++ splitLinesFrom none b := by
  fun_induction splitLinesFrom line a with
  | case1 line =>
    rw [List.nil_append, List.nil_append, splitLinesFrom_feed, splitLinesFrom_feed]
    rfl
  | case2 line rest ih =>
    simp only [List.cons_append, splitLinesFrom_pair, ih]
  | case3 line c rest hpair hc ih =>
    by_cases hlast : c = '\r' ∧ rest = []
    · obtain ⟨rfl, rfl⟩ := hlast
      simp only [List.cons_append, List.nil_append, splitLinesFrom_pair]
      rfl
    · have hhead : ∀ u, c = '\r' → (rest ++ '\n' :: u).head? ≠ some '\n' := by
        intro u hreturn
        cases rest with
        | nil => exact absurd ⟨hreturn, rfl⟩ hlast
        | cons d rest =>
          intro hd
          exact hpair rest hreturn (congrArg (· :: rest) (Option.some.inj hd))
      rw [List.cons_append, splitLinesFrom_boundary hc (hhead b), List.cons_append,
        splitLinesFrom_boundary hc (hhead []), ih]
      rfl
  | case4 line c rest hpair hc ih =>
    have hc : isLineBoundary c = false := by simpa using hc
    rw [List.cons_append, splitLinesFrom_of_not_boundary hc, List.cons_append,
      splitLinesFrom_of_not_boundary hc, ih]

theorem splitLinesFrom_unifyLineFeeds (line : Option Text) (t : Text) :
    splitLinesFrom line (unifyLineFeeds t) = splitLinesFrom line t := by
  fun_induction splitLinesFrom line t with
  | case1 line => rfl
  | case2 line rest ih => rw [unifyLineFeeds, splitLinesFrom_feed, ih]
  | case3 line c rest hpair hc ih =>
    by_cases hreturn : c = '\r'
    · subst hreturn
      rw [unifyLineFeeds, splitLinesFrom_feed, ih]
      exact fun rest' h => hpair rest' rfl h
    · rw [unifyLineFeeds, splitLinesFrom_boundary hc fun h => absurd h hreturn, ih]
      · exact fun _ h _ => hreturn h
      · exact hreturn
  | case4 line c rest hpair hc ih =>
    have hreturn : c ≠ '\r' := by
      rintro rfl
      exact hc rfl
    have hc : isLineBoundary c = false := by simpa using hc
    rw [unifyLineFeeds, splitLinesFrom_of_not_boundary hc, ih]
    · exact fun _ h _ => hreturn h
    · exact hreturn

/-- A text without boundaries goes on with the line under way. -/
theorem splitLinesFrom_append {l : Text} (h : ∀ c ∈ l, isLineBoundary c = false) (line : Text)
    (t : Text) : splitLinesFrom (some line) (l ++ t) = splitLinesFrom (some (line ++ l)) t := by
  induction l generalizing line with
  | nil => simp
  | cons c l ih =>
    rw [List.cons_append, splitLinesFrom_of_not_boundary (h c List.mem_cons_self),
      Option.getD_some, ih (fun d hd => h d (List.mem_cons_of_mem c hd)), List.append_assoc,
      List.singleton_append]

theorem splitLines_append_feed (a b : Text) :
    splitLines (a ++ '\n' :: b) = splitLines (a ++ ['\n']) ++ splitLines b :=
  splitLinesFrom_append_feed none a b

/-- Unifying the line ends of a text does not change its lines. -/
theorem splitLines_unifyLineFeeds (t : Text) : splitLines (unifyLineFeeds t) = splitLines t :=
  splitLinesFrom_unifyLineFeeds none t

theorem not_boundary_of_mem_splitLinesFrom {line : Option Text} {t l : Text}
    (hline : ∀ c ∈ line.getD [], isLineBoundary c = false) (hl : l ∈ splitLinesFrom line t) :
    ∀ c ∈ l, isLineBoundary c = false := by
  fun_induction splitLinesFrom line t with
  | case1 line =>
    obtain rfl := Option.mem_toList.mp hl
    exact hline
  | case2 line rest ih =>
    rcases List.mem_cons.mp hl with rfl | hl
    · exact hline
    · exact ih (by simp) hl
  | case3 line c rest hpair hc ih =>
    rcases List.mem_cons.mp hl with rfl | hl
    · exact hline
    · exact ih (by simp) hl
  | case4 line c rest hpair hc ih =>
    refine ih (fun d hd => ?_) hl
    rcases List.mem_append.mp hd with hd | hd
    · exact hline d hd
    · rw [List.mem_singleton.mp hd]
      simpa using hc

theorem not_boundary_of_mem_splitLines {t l : Text} (hl : l ∈ splitLines t) :
    ∀ c ∈ l, isLineBoundary c = false :=
  not_boundary_of_mem_splitLinesFrom (by simp) hl

/-- Lines that are joined and ended by line feeds are split one by one. -/
theorem splitLines_unlines {ls : List Text} (h : ls ≠ []) :
    splitLines (unlines ls ++ ['\n']) = ls.flatMap fun l => splitLines (l ++ ['\n']) := by
  obtain ⟨l, ls, rfl⟩ := List.exists_cons_of_ne_nil h
  clear h
  rw [unlines_cons]
  induction ls generalizing l with
  | nil => simp
  | cons m ls ih =>
    have hjoined : l ++ (m :: ls).flatMap ('\n' :: ·) ++ ['\n'] =
        l ++ '\n' :: (m ++ ls.flatMap ('\n' :: ·) ++ ['\n']) := by simp
    rw [hjoined, splitLines_append_feed, ih m]
    simp only [List.flatMap_cons]

end TexMark.Text
