/-
  TexMark/Proofs/Lines.lean
  =========================
  **Lines and their margins.**  What the operations on lines take apart is still all there: a
  line is a piece of its text that begins at the text's beginning or behind a line feed
  (`exists_line_of_mem_lines`), and trimming takes blanks from both ends only (`exists_strip`).

  A quote prefix counts in front of a place if it is all that stands before the place on its
  line.  So it is decided by the line as far as it has been written (`prefixAt_append`), and two
  texts whose last lines are alike (`Alike`) go on to be alike.
-/
import TexMark.Markup.BlockQuote
import Mathlib.Data.List.DropRight

namespace TexMark

namespace Text

/-! ### Lines -/

theorem splitOn_of_not_mem {sep : Char} {t : Text} (h : sep ∉ t) : splitOn sep t = [t] := by
  induction t with
  | nil => rfl
  | cons c t ih =>
    have hc : c ≠ sep := by
      rintro rfl
      exact h List.mem_cons_self
    rw [splitOn, if_neg hc, ih fun hmem => h (List.mem_cons_of_mem c hmem)]

theorem splitOn_append {sep : Char} {u : Text} (h : sep ∉ u) (t : Text) :
    splitOn sep (u ++ sep :: t) = u :: splitOn sep t := by
  induction u with
  | nil => rw [List.nil_append, splitOn, if_pos rfl]
  | cons c u ih =>
    have hc : c ≠ sep := by
      rintro rfl
      exact h List.mem_cons_self
    rw [List.cons_append, splitOn, if_neg hc, ih fun hmem => h (List.mem_cons_of_mem c hmem)]

theorem lines_of_not_mem {t : Text} (h : '\n' ∉ t) : lines t = [t] := splitOn_of_not_mem h

theorem lines_append {u : Text} (h : '\n' ∉ u) (t : Text) :
    lines (u ++ '\n' :: t) = u :: lines t := splitOn_append h t

/-- What stands in front of a text on its first line. -/
theorem lines_append_left {u : Text} (h : '\n' ∉ u) {t f : Text} {ls : List Text}
    (ht : lines t = f :: ls) : lines (u ++ t) = (u ++ f) :: ls := by
  unfold lines at ht ⊢
  induction u with
  | nil => exact ht
  | cons c u ih =>
    have hc : c ≠ '\n' := by
      rintro rfl
      exact h List.mem_cons_self
    rw [List.cons_append, splitOn, if_neg hc, ih fun hmem => h (List.mem_cons_of_mem c hmem)]
    rfl

/-- A line is a piece of the text.  It begins where a line can begin, and ends in front of a line
    feed or at the end of the text. -/
theorem exists_line_of_mem_lines {l t : Text} (h : l ∈ lines t) :
    '\n' ∉ l ∧ ∃ u v, t = u ++ (l ++ v) ∧ Scan.atLineStart u.reverse ∧ ∀ d ∈ v.head?, d = '\n' := by
  by_cases hfeed : '\n' ∈ t
  · obtain ⟨u, v, rfl, hu⟩ := List.eq_append_cons_of_mem hfeed
    rw [lines_append hu] at h
    rcases List.mem_cons.mp h with rfl | h
    · exact ⟨hu, [], '\n' :: v, rfl, rfl, fun d hd => (Option.some.inj hd).symm⟩
    · obtain ⟨hl, u', v', rfl, hstart, hend⟩ := exists_line_of_mem_lines h
      refine ⟨hl, u ++ '\n' :: u', v', by simp, ?_, hend⟩
      cases hu' : u'.reverse with
      | nil => simp [hu', Scan.atLineStart]
      | cons c r =>
        rw [hu'] at hstart
        simpa [hu', Scan.atLineStart] using hstart
  · rw [lines_of_not_mem hfeed, List.mem_singleton] at h
    subst h
    exact ⟨hfeed, [], [], by simp, rfl, nofun⟩
termination_by t.length
decreasing_by
  subst_vars
  simp only [List.length_append, List.length_cons]
  omega

theorem exists_of_mem_lines {l t : Text} (h : l ∈ lines t) :
    '\n' ∉ l ∧ ∃ u v, t = u ++ (l ++ v) ∧ Scan.atLineStart u.reverse := by
  obtain ⟨hfeed, u, v, ht, hstart, -⟩ := exists_line_of_mem_lines h
  exact ⟨hfeed, u, v, ht, hstart⟩

theorem join_cons (sep l : Text) (ls : List Text) :
    join sep (l :: ls) = l ++ ls.flatMap (sep ++ ·) := by
  unfold join
  induction ls generalizing l with
  | nil => simp
  | cons m ls ih => simp [List.intercalate_cons_cons, ih]

theorem mem_join {sep t : Text} {ts : List Text} {c : Char} (ht : t ∈ ts) (hc : c ∈ t) :
    c ∈ join sep ts := by
  cases ts with
  | nil => cases ht
  | cons u ts =>
    rw [join_cons]
    rcases List.mem_cons.mp ht with rfl | ht
    · exact List.mem_append_left _ hc
    · exact List.mem_append_right _ (List.mem_flatMap.mpr ⟨t, ht, List.mem_append_right sep hc⟩)

theorem mem_of_mem_join {sep : Text} {ts : List Text} {c : Char} (h : c ∈ join sep ts) :
    c ∈ sep ∨ ∃ t ∈ ts, c ∈ t := by
  cases ts with
  | nil => cases h
  | cons u ts =>
    rw [join_cons] at h
    rcases List.mem_append.mp h with hc | h
    · exact .inr ⟨u, List.mem_cons_self, hc⟩
    · obtain ⟨t, ht, hc⟩ := List.mem_flatMap.mp h
      rcases List.mem_append.mp hc with hc | hc
      · exact .inl hc
      · exact .inr ⟨t, List.mem_cons_of_mem u ht, hc⟩

theorem count_join {x : Char} {sep : Text} (hsep : x ∉ sep) (ts : List Text) :
    (join sep ts).count x = ts.flatten.count x := by
  cases ts with
  | nil => rfl
  | cons t ts =>
    have hbehind : (ts.flatMap (sep ++ ·)).count x = ts.flatten.count x := by
      induction ts with
      | nil => rfl
      | cons u ts ih =>
        rw [List.flatMap_cons, List.flatten_cons, List.count_append, List.count_append,
          List.count_append, List.count_eq_zero.mpr hsep, Nat.zero_add, ih]
    rw [join_cons, List.flatten_cons, List.count_append, List.count_append, hbehind]

theorem unlines_cons (l : Text) (ls : List Text) :
    unlines (l :: ls) = l ++ ls.flatMap ('\n' :: ·) := join_cons ['\n'] l ls

theorem not_mem_unlines {c : Char} (hc : c ≠ '\n') {ls : List Text} (h : ∀ l ∈ ls, c ∉ l) :
    c ∉ unlines ls := by
  cases ls with
  | nil => exact List.not_mem_nil
  | cons l ls =>
    rw [unlines_cons]
    refine List.not_mem_append (h l List.mem_cons_self) fun hmem => ?_
    obtain ⟨m, hm, hmem⟩ := List.mem_flatMap.mp hmem
    rcases List.mem_cons.mp hmem with hfeed | hmem
    · exact hc hfeed
    · exact h m (List.mem_cons_of_mem l hm) hmem

/-- Joining lines and taking the lines again. -/
theorem lines_unlines {l : Text} {ls : List Text} (h : ∀ x ∈ l :: ls, '\n' ∉ x) :
    lines (unlines (l :: ls)) = l :: ls := by
  rw [unlines_cons]
  induction ls generalizing l with
  | nil =>
    rw [List.flatMap_nil, List.append_nil]
    exact lines_of_not_mem (h l List.mem_cons_self)
  | cons m ls ih =>
    have hrest : ∀ x ∈ m :: ls, '\n' ∉ x := fun x hx => h x (List.mem_cons_of_mem l hx)
    rw [List.flatMap_cons, List.cons_append, lines_append (h l List.mem_cons_self), ih hrest]

/-! ### Margins -/

theorem strip_eq (t : Text) : strip t = (t.dropWhile isBlank).rdropWhile isBlank := rfl

theorem exists_strip (t : Text) :
    ∃ u v, t = u ++ (strip t ++ v) ∧ (∀ c ∈ u, isBlank c) ∧ ∀ c ∈ v, isBlank c := by
  refine ⟨t.takeWhile isBlank, (t.dropWhile isBlank).rtakeWhile isBlank, ?_,
    fun c hc => List.mem_takeWhile_imp hc, fun c hc => List.mem_rtakeWhile_imp hc⟩
  rw [strip_eq, List.rdropWhile_append_rtakeWhile, List.takeWhile_append_dropWhile]

theorem strip_eq_nil {t : Text} (h : isBlankText t) : strip t = [] := by
  have hdrop : t.dropWhile isBlank = [] :=
    List.dropWhile_eq_nil_iff.mpr fun c hc => List.all_eq_true.mp h c hc
  rw [strip_eq, hdrop]
  rfl

theorem strip_ne_nil {t : Text} (h : isBlankText t = false) : strip t ≠ [] := by
  intro hnil
  obtain ⟨u, v, ht, hu, hv⟩ := exists_strip t
  rw [hnil, List.nil_append] at ht
  have hblank : isBlankText t := by
    rw [ht]
    exact List.all_eq_true.mpr fun c hc => (List.mem_append.mp hc).elim (hu c) (hv c)
  rw [h] at hblank
  cases hblank

theorem strip_strip (t : Text) : strip (strip t) = strip t := by
  have hfirst : (strip t).dropWhile isBlank = strip t := by
    have hbegins : strip t <+: t.dropWhile isBlank := List.rdropWhile_prefix isBlank _
    have hidem := List.dropWhile_idempotent isBlank t
    cases hs : strip t with
    | nil => rfl
    | cons c s =>
      rw [hs] at hbegins
      obtain ⟨v, hv⟩ := hbegins
      rw [← hv, List.cons_append, List.dropWhile_cons] at hidem
      split at hidem
      · -- dropping the first character would make the text shorter
        have hlength := congrArg List.length hidem
        have := (List.dropWhile_suffix isBlank (l := s ++ v)).length_le
        simp only [List.length_cons] at hlength
        omega
      · rename_i hc
        exact List.dropWhile_cons_of_neg hc
  rw [strip_eq (strip t), hfirst, strip_eq t, List.rdropWhile_idempotent]

theorem mem_of_mem_strip {t : Text} {c : Char} (h : c ∈ strip t) : c ∈ t := by
  obtain ⟨u, v, ht, -⟩ := exists_strip t
  rw [ht]
  exact List.mem_append_right u (List.mem_append_left v h)

theorem count_strip_le (x : Char) (t : Text) : (strip t).count x ≤ t.count x := by
  obtain ⟨u, v, ht, -, -⟩ := exists_strip t
  conv_rhs => rw [ht, List.count_append, List.count_append]
  omega

theorem head?_strip {t : Text} {c : Char} (h : c ∈ (strip t).head?) : ¬ isBlank c := by
  have hbegins : strip t <+: t.dropWhile isBlank := List.rdropWhile_prefix isBlank _
  cases hs : strip t with
  | nil =>
    rw [hs] at h
    cases h
  | cons d s =>
    rw [hs] at h hbegins
    cases h
    obtain ⟨v, hv⟩ := hbegins
    have hd := List.head_dropWhile_not isBlank (by rw [← hv]; exact List.cons_ne_nil c _)
    simpa [← hv] using hd

/-- A text with something written at both of its ends is not trimmed. -/
theorem strip_eq_self {t : Text} (hfirst : ∀ c ∈ t.head?, ¬ isBlank c)
    (hlast : ∀ c ∈ t.getLast?, ¬ isBlank c) : strip t = t := by
  have hdrop : t.dropWhile isBlank = t := by
    cases t with
    | nil => rfl
    | cons c t => exact List.dropWhile_cons_of_neg (hfirst c rfl)
  rw [strip_eq, hdrop]
  exact List.rdropWhile_eq_self_iff.mpr fun hne => hlast _ (List.getLast?_eq_some_getLast hne)

theorem getLast?_stripEnd {t : Text} {c : Char} (h : c ∈ (stripEnd t).getLast?) : ¬ isBlank c := by
  obtain ⟨hne, rfl⟩ := List.mem_getLast?_eq_getLast h
  exact List.rdropWhile_last_not isBlank t hne

theorem getLast?_strip {t : Text} {c : Char} (h : c ∈ (strip t).getLast?) : ¬ isBlank c :=
  getLast?_stripEnd (t := t.dropWhile isBlank) h

theorem strip_cons_blank {c : Char} (hc : isBlank c) (t : Text) : strip (c :: t) = strip t := by
  rw [strip_eq, List.dropWhile_cons_of_pos hc, ← strip_eq]

theorem strip_append_blank {v : Text} (hv : ∀ c ∈ v, isBlank c) (t : Text) :
    strip (t ++ v) = strip t := by
  rw [strip_eq, strip_eq, List.dropWhile_append]
  split
  · rename_i hblank
    have hdrop : v.dropWhile isBlank = [] := List.dropWhile_eq_nil_iff.mpr hv
    rw [hdrop, List.isEmpty_iff.mp hblank]
  · have hreverse : ∀ c ∈ v.reverse, isBlank c := fun c hc => hv c (List.mem_reverse.mp hc)
    rw [List.rdropWhile, List.reverse_append, List.dropWhile_append_of_pos hreverse]
    rfl

/-- Behind the last character that is written, trimming takes away what is there. -/
theorem stripEnd_append_cons (u : Text) {c : Char} (hc : ¬ isBlank c) (v : Text) :
    stripEnd (u ++ c :: v) = u ++ c :: stripEnd v := by
  simp only [stripEnd, trimEnd, List.reverse_append, List.reverse_cons, List.append_assoc,
    List.singleton_append, List.dropWhile_append, List.dropWhile_cons_of_neg hc]
  split
  · rename_i hblank
    rw [List.isEmpty_iff.mp hblank]
    simp
  · simp

theorem exists_stripEnd (t : Text) : ∃ v, t = stripEnd t ++ v ∧ ∀ c ∈ v, isBlank c :=
  ⟨t.rtakeWhile isBlank, List.rdropWhile_append_rtakeWhile.symm,
    fun _ hc => List.mem_rtakeWhile_imp hc⟩

/-! ### Lines on which something is written -/

/-- The number of lines on which something is written. -/
def height (t : Text) : Nat := (lines t).countP fun l => !isBlankText l

theorem height_eq_zero {t : Text} (h : ∀ c ∈ t, isBlank c) : height t = 0 := by
  apply List.countP_eq_zero.mpr
  intro l hl
  obtain ⟨-, u, v, rfl, -⟩ := exists_of_mem_lines hl
  have hall : isBlankText l := List.all_eq_true.mpr fun c hc => h c (by simp [hc])
  simp [hall]

theorem height_cons {c : Char} (hc : isBlank c) (t : Text) : height (c :: t) = height t := by
  unfold height lines
  by_cases hfeed : c = '\n'
  · rw [splitOn, if_pos hfeed]
    exact List.countP_cons_of_neg (by decide)
  · obtain ⟨l, ls, hls⟩ := List.exists_cons_of_ne_nil (splitOn_ne_nil '\n' t)
    rw [splitOn, if_neg hfeed, hls]
    simp [List.countP_cons, isBlankText, hc]

/-- Within its margins, a text without line feeds is one line. -/
theorem height_le_one {t : Text} (h : '\n' ∉ strip t) : height t ≤ 1 := by
  obtain ⟨u, v, ht, hu, hv⟩ := exists_strip t
  have hfirst : ∀ w, height (u ++ w) = height w := by
    clear ht
    intro w
    induction u with
    | nil => rfl
    | cons c u ih =>
      rw [List.cons_append, height_cons (hu c List.mem_cons_self)]
      exact ih fun c hc => hu c (List.mem_cons_of_mem _ hc)
  rw [ht, hfirst]
  by_cases hfeed : '\n' ∈ v
  · obtain ⟨v₁, v₂, rfl, hv₁⟩ := List.eq_append_cons_of_mem hfeed
    have hbelow : height v₂ = 0 := height_eq_zero fun c hc => hv c (by simp [hc])
    have hline : '\n' ∉ strip t ++ v₁ := by simp [h, hv₁]
    rw [← List.append_assoc, height, lines_append hline, List.countP_cons, ← height, hbelow]
    split <;> omega
  · have hline : '\n' ∉ strip t ++ v := by simp [h, hfeed]
    rw [height, lines_of_not_mem hline]
    exact List.countP_le_length

/-! ### The line behind a text -/

/-- The line as far as it is written at the end of a text. -/
def lastLine (t : Text) : Text := t.rtakeWhile (· != '\n')

theorem not_mem_lastLine (t : Text) : '\n' ∉ lastLine t := by
  intro h
  simpa using List.mem_rtakeWhile_imp h

theorem exists_lastLine (t : Text) : ∃ u, t = u ++ lastLine t ∧ Scan.atLineStart u.reverse := by
  refine ⟨t.rdropWhile (· != '\n'), (List.rdropWhile_append_rtakeWhile).symm, ?_⟩
  rw [List.rdropWhile, List.reverse_reverse]
  cases h : t.reverse.dropWhile (· != '\n') with
  | nil => rfl
  | cons c r =>
    have hc := List.head_dropWhile_not (· != '\n') (by rw [h]; exact List.cons_ne_nil c r)
    simp only [h, List.head_cons] at hc
    simpa [Scan.atLineStart] using hc

theorem lastLine_append_of_not_mem (u : Text) {g : Text} (hg : '\n' ∉ g) :
    lastLine (u ++ g) = lastLine u ++ g := by
  have hall : ∀ c ∈ g.reverse, (c != '\n') = true := by
    intro c hc
    have hne : c ≠ '\n' := by
      rintro rfl
      exact hg (List.mem_reverse.mp hc)
    simpa using hne
  rw [lastLine, List.rtakeWhile, List.reverse_append, List.takeWhile_append_of_pos hall,
    List.reverse_append, List.reverse_reverse]
  rfl

theorem lastLine_eq {u l : Text} (hu : Scan.atLineStart u.reverse) (hl : '\n' ∉ l) :
    lastLine (u ++ l) = l := by
  have hnil : lastLine u = [] := by
    rw [lastLine, List.rtakeWhile]
    cases h : u.reverse with
    | nil => rfl
    | cons c r =>
      have hc : c = '\n' := by simpa [h, Scan.atLineStart] using hu
      simp [hc]
  rw [lastLine_append_of_not_mem u hl, hnil, List.nil_append]

theorem lastLine_append_of_mem (u : Text) {g : Text} (hg : '\n' ∈ g) :
    lastLine (u ++ g) = lastLine g := by
  obtain ⟨w, hw, hstart⟩ := exists_lastLine g
  -- the last line of `g` is not all of it, so it begins behind a line feed
  have hstart' : Scan.atLineStart (u ++ w).reverse := by
    cases hr : w.reverse with
    | nil =>
      rw [List.reverse_eq_nil_iff.mp hr, List.nil_append] at hw
      exact absurd (hw ▸ hg) (not_mem_lastLine g)
    | cons c r =>
      rw [hr] at hstart
      simpa [hr, Scan.atLineStart] using hstart
  conv_lhs => rw [hw, ← List.append_assoc]
  exact lastLine_eq hstart' (not_mem_lastLine g)

/-! ### Lines of texts one behind the other -/

theorem lines_append_feed (u v : Text) : lines (u ++ '\n' :: v) = lines u ++ lines v := by
  by_cases hfeed : '\n' ∈ u
  · obtain ⟨a, b, rfl, ha⟩ := List.eq_append_cons_of_mem hfeed
    rw [List.append_assoc, List.cons_append, lines_append ha, lines_append ha,
      lines_append_feed b v, List.cons_append]
  · rw [lines_append hfeed, lines_of_not_mem hfeed, List.singleton_append]
termination_by u.length
decreasing_by
  subst_vars
  simp only [List.length_append, List.length_cons]
  omega

/-- The last line of a text goes on with the first line of what follows. -/
theorem exists_lines (u : Text) : ∃ ls, lines u = ls ++ [lastLine u] ∧
    ∀ v f fs, lines v = f :: fs → lines (u ++ v) = ls ++ (lastLine u ++ f) :: fs := by
  have hlast := not_mem_lastLine u
  obtain ⟨a, hu, hstart⟩ := exists_lastLine u
  rcases List.eq_nil_or_concat a with rfl | ⟨a, c, rfl⟩
  · rw [List.nil_append] at hu
    refine ⟨[], ?_, fun v f fs hv => ?_⟩
    · conv_lhs => rw [hu]
      exact lines_of_not_mem hlast
    · conv_lhs => rw [hu]
      exact lines_append_left hlast hv
  · have hc : c = '\n' := by simpa [Scan.atLineStart] using hstart
    rw [hc, List.concat_eq_append, List.append_assoc, List.singleton_append] at hu
    refine ⟨lines a, ?_, fun v f fs hv => ?_⟩
    · conv_lhs => rw [hu, lines_append_feed]
      rw [lines_of_not_mem hlast]
    · conv_lhs => rw [hu, List.append_assoc, List.cons_append, lines_append_feed]
      rw [lines_append_left hlast hv]

end Text

namespace BlockQuote

open Text (lastLine isLineBlank)

/-- The characters that quote prefixes are made of. -/
def isQuoting (c : Char) : Bool := isLineBlank c || c == '>'

/-- **Solid** writing holds no line feed, and nothing that quote prefixes are made of. -/
def Solid (t : Text) : Prop := ∀ c ∈ t, c ≠ '\n' ∧ isQuoting c = false

-- decided along the text, not over all characters there are
instance decidableSolid (t : Text) : Decidable (Solid t) := List.decidableBAll _ t

theorem not_mem_of_isQuoting {front : Text} (hfront : ∀ c ∈ front, isQuoting c) {c : Char}
    (hc : isQuoting c = false) : c ∉ front := by
  intro hmem
  rw [hfront c hmem] at hc
  cases hc

theorem markers_isPrefix (t : Text) : markers t <+: t := by
  fun_induction markers t with
  | case1 rest ih => exact List.cons_prefix_cons.mpr ⟨rfl, List.cons_prefix_cons.mpr ⟨rfl, ih⟩⟩
  | case2 rest ih => exact List.cons_prefix_cons.mpr ⟨rfl, List.cons_prefix_cons.mpr ⟨rfl, ih⟩⟩
  | case3 rest _ _ ih => exact List.cons_prefix_cons.mpr ⟨rfl, ih⟩
  | case4 => exact List.nil_prefix

theorem isQuoting_of_mem_markers {t : Text} {c : Char} (hc : c ∈ markers t) : isQuoting c := by
  fun_induction markers t with
  | case1 rest ih =>
    rcases List.mem_cons.mp hc with rfl | hc
    · rfl
    · rcases List.mem_cons.mp hc with rfl | hc
      · rfl
      · exact ih hc
  | case2 rest ih =>
    rcases List.mem_cons.mp hc with rfl | hc
    · rfl
    · rcases List.mem_cons.mp hc with rfl | hc
      · rfl
      · exact ih hc
  | case3 rest _ _ ih =>
    rcases List.mem_cons.mp hc with rfl | hc
    · rfl
    · exact ih hc
  | case4 => cases hc

theorem markers_append (l : Text) {v : Text} (hv : ∀ c, v.head? = some c → isQuoting c = false) :
    markers (l ++ v) = markers l := by
  fun_induction markers l with
  | case1 rest ih => simp [markers, ih]
  | case2 rest ih => simp [markers, ih]
  | case3 rest hspace htab ih =>
    rw [List.cons_append, markers, ih]
    · intro after hafter
      cases rest with
      | nil =>
        have := hv ' ' (by rw [← List.nil_append v, hafter]; rfl)
        cases this
      | cons c rest =>
        cases hafter
        exact hspace _ rfl
    · intro after hafter
      cases rest with
      | nil =>
        have := hv '\t' (by rw [← List.nil_append v, hafter]; rfl)
        cases this
      | cons c rest =>
        cases hafter
        exact htab _ rfl
  | case4 t _ _ hmarker =>
    have hno : ∀ after, t ++ v ≠ '>' :: after := by
      intro after hafter
      cases t with
      | nil =>
        have := hv '>' (by rw [← List.nil_append v, hafter]; rfl)
        cases this
      | cons c t =>
        cases hafter
        exact hmarker t rfl
    rw [markers]
    · exact fun _ => hno _
    · exact fun _ => hno _
    · exact fun _ => hno _

/-- What the quote prefix of a line is made of: its indentation and the markers behind it. -/
theorem linePrefix_cases (l : Text) : ∃ indent rest, l = indent ++ rest ∧
    (∀ c ∈ indent, isLineBlank c) ∧ (linePrefix l = [] ∨ linePrefix l = indent ++ markers rest) := by
  refine ⟨l.takeWhile isLineBlank, l.drop (l.takeWhile isLineBlank).length, ?_,
    fun c hc => List.mem_takeWhile_imp hc, ?_⟩
  · exact (List.prefix_iff_eq_append.mp (List.takeWhile_prefix isLineBlank)).symm
  · simp only [linePrefix]
    split
    · exact .inl rfl
    · exact .inr rfl

theorem linePrefix_isPrefix (l : Text) : linePrefix l <+: l := by
  obtain ⟨indent, rest, hl, -, hnil | heq⟩ := linePrefix_cases l
  · rw [hnil]
    exact List.nil_prefix
  · rw [heq]
    conv_rhs => rw [hl]
    exact (List.prefix_append_right_inj indent).mpr (markers_isPrefix rest)

theorem isQuoting_of_mem_linePrefix {l : Text} {c : Char} (hc : c ∈ linePrefix l) :
    isQuoting c := by
  obtain ⟨indent, rest, -, hindent, hnil | heq⟩ := linePrefix_cases l
  · rw [hnil] at hc
    cases hc
  · rw [heq] at hc
    rcases List.mem_append.mp hc with hc | hc
    · simp [isQuoting, hindent c hc]
    · exact isQuoting_of_mem_markers hc

/-- The quote prefix of a line is decided in front of the first character that is in none. -/
theorem linePrefix_append (l : Text) {v : Text}
    (hv : ∀ c, v.head? = some c → isQuoting c = false) : linePrefix (l ++ v) = linePrefix l := by
  have hblank : v.takeWhile isLineBlank = [] := by
    cases v with
    | nil => rfl
    | cons c v =>
      have hc := hv c rfl
      simp only [isQuoting, Bool.or_eq_false_iff] at hc
      simp [hc.1]
  have hindent : (l ++ v).takeWhile isLineBlank = l.takeWhile isLineBlank := by
    rw [List.takeWhile_append, hblank, List.append_nil]
    split
    · rename_i hall
      exact (List.IsPrefix.eq_of_length (List.takeWhile_prefix _) hall).symm
    · rfl
  have hlength := (List.takeWhile_prefix (l := l) isLineBlank).length_le
  simp only [linePrefix, hindent, List.drop_append_of_le_length hlength, markers_append _ hv]

/-- The quote prefix behind a text, if nothing else stands on its last line. -/
def quoteBehind (u : Text) : Text :=
  if linePrefix (lastLine u) = lastLine u then lastLine u else []

theorem prefixAt_append (u : Text) {v : Text}
    (hv : ∀ c, v.head? = some c → isQuoting c = false) :
    prefixAt (u ++ v) u.length = quoteBehind u := by
  obtain ⟨w, hw, -⟩ := Text.exists_lastLine u
  have hlength : u.length = w.length + (lastLine u).length := by
    conv_lhs => rw [hw, List.length_append]
  have hstart : Scan.lineStart (u ++ v) u.length = w.length := by
    have hlast : (u.reverse.takeWhile (· != '\n')).length = (lastLine u).length := by
      rw [lastLine, List.rtakeWhile, List.length_reverse]
    simp only [Scan.lineStart, List.take_left, hlast]
    omega
  have hline : (u ++ v).drop w.length = lastLine u ++ v := by
    conv_lhs => rw [hw, List.append_assoc, List.drop_left]
  simp only [prefixAt, hstart, hline, linePrefix_append _ hv, quoteBehind]
  by_cases h : linePrefix (lastLine u) = lastLine u
  · rw [if_pos h, h, if_pos hlength.symm]
  · rw [if_neg h, if_neg]
    intro hsame
    exact h ((linePrefix_isPrefix _).eq_of_length (by omega))

theorem isQuoting_of_mem_prefixAt {text : Text} {pos : Nat} {c : Char}
    (hc : c ∈ prefixAt text pos) : isQuoting c := by
  simp only [prefixAt] at hc
  split at hc
  · exact isQuoting_of_mem_linePrefix hc
  · cases hc

/-! ### Texts with like last lines -/

/-- The same stands on the last lines of two texts, or on neither stands a mere quote prefix. -/
def Alike (u v : Text) : Prop :=
  lastLine u = lastLine v ∨
    ((lastLine u).all isQuoting = false ∧ (lastLine v).all isQuoting = false)

namespace Alike

variable {u v : Text}

theorem append (h : Alike u v) (g : Text) : Alike (u ++ g) (v ++ g) := by
  by_cases hg : '\n' ∈ g
  · exact .inl (by rw [Text.lastLine_append_of_mem u hg, Text.lastLine_append_of_mem v hg])
  · simp only [Alike, Text.lastLine_append_of_not_mem _ hg, List.all_append]
    rcases h with h | ⟨hu, hv⟩
    · exact .inl (by rw [h])
    · exact .inr (by simp [hu, hv])

/-- Two texts that end in solid writing. -/
theorem of_solid {s s' : Text} (hne : s ≠ []) (hne' : s' ≠ []) (hs : Solid s) (hs' : Solid s')
    (u v : Text) : Alike (u ++ s) (v ++ s') := by
  have hother : ∀ {s : Text}, s ≠ [] → Solid s → ∀ w,
      (lastLine (w ++ s)).all isQuoting = false := by
    intro s hne hs w
    obtain ⟨c, s, rfl⟩ := List.exists_cons_of_ne_nil hne
    have hfeed : '\n' ∉ c :: s := fun hmem => (hs _ hmem).1 rfl
    rw [Text.lastLine_append_of_not_mem w hfeed]
    simp [(hs c List.mem_cons_self).2]
  exact .inr ⟨hother hne hs u, hother hne' hs' v⟩

/-- A mere quote prefix stands on both last lines if it stands on one. -/
theorem lastLine_eq (h : Alike u v) (hquoting : ∀ c ∈ lastLine u, isQuoting c) :
    lastLine v = lastLine u := by
  rcases h with hsame | ⟨hother, -⟩
  · exact hsame.symm
  · rw [List.all_eq_true.mpr hquoting] at hother
    cases hother

theorem quoteBehind_eq (h : Alike u v) : quoteBehind u = quoteBehind v := by
  rcases h with h | ⟨hu, hv⟩
  · simp only [quoteBehind, h]
  · have hnone : ∀ {w : Text}, (lastLine w).all isQuoting = false → quoteBehind w = [] := by
      intro w hw
      rw [quoteBehind, if_neg]
      intro heq
      have hall : (lastLine w).all isQuoting = true := by
        rw [List.all_eq_true, ← heq]
        exact fun c => isQuoting_of_mem_linePrefix
      rw [hall] at hw
      cases hw
    rw [hnone hu, hnone hv]

end Alike

theorem stripLines_eq (front : Text) (ls : List Text) :
    stripLines front ls = ls.map (stripLine front) := by
  cases front with
  | nil => exact (List.map_id' ls).symm
  | cons c front => rfl

theorem stripLine_nil (front : Text) : stripLine front [] = [] := by
  cases front with
  | nil => rfl
  | cons c front => simp [stripLine, Text.dropPrefix?]

/-- Taking away the prefix writes nothing. -/
theorem isBlankText_stripLine (front : Text) {l : Text} (hl : Text.isBlankText l) :
    Text.isBlankText (stripLine front l) := by
  unfold stripLine
  split
  · rename_i rest hrest
    rw [Text.dropPrefix?_eq_some_iff.mp hrest] at hl
    simp only [Text.isBlankText, List.all_append, Bool.and_eq_true] at hl
    exact hl.2
  · split
    · rfl
    · exact hl

theorem stripLine_append (front l : Text) : stripLine front (front ++ l) = l := by
  simp only [stripLine, Text.dropPrefix?_eq_some_iff.mpr rfl]

end BlockQuote

end TexMark
