/-
  TexMark/Proofs/Theorem/RoundTrip.lean
  =====================================
  **Numbered theorems read back.**  An instance is written as a callout, with a lead-in that
  its environment did not have.  Reading the callout gives the environment with its title and
  its content again, and of the lead-in nothing is left (`toEnvironments_render`).  What the
  callout does not keep are the margins of the content, the blanks behind its first line, and
  the blanks on lines with nothing else (`carried`).
-/
import TexMark.Proofs.Theorem.LeadIn

namespace TexMark.Callout

open Text (lines unlines strip stripEnd isBlank isBlankText)

/-! ### The lines of a body -/

/-- A line without its blanks, if there is nothing else on it. -/
def emptied (line : Text) : Text := if isBlankText line then [] else line

/-- The lines of a content as a callout carries them. -/
def carried (content : Text) : List Text :=
  match lines (strip content) with
  | [] => []
  | first :: rest => stripEnd first :: rest.map emptied

theorem unquoted_quotedLine (line : Text) : unquoted (quotedLine line) = emptied line := by
  unfold quotedLine emptied
  split <;> rfl

theorem isQuoted_quotedLine (line : Text) : isQuoted (quotedLine line) := by
  unfold quotedLine
  split <;> rfl

theorem not_mem_quotedLine {line : Text} (h : '\n' ∉ line) : '\n' ∉ quotedLine line := by
  unfold quotedLine
  split
  · decide
  · simpa using h

/-- Quoted lines, up to the first line that is none, are taken for the body. -/
theorem bodyOf_quoted (first : Text) (rest following : List Text)
    (h : ∀ l ∈ following.head?, isQuoted l = false) :
    bodyOf ((first :: rest).map quotedLine ++ following) =
      dropLeadIn (emptied first) :: rest.map emptied := by
  have hquoted : ∀ l ∈ (first :: rest).map quotedLine, isQuoted l := by
    intro l hl
    obtain ⟨l', -, rfl⟩ := List.mem_map.mp hl
    exact isQuoted_quotedLine l'
  have hstop : following.takeWhile isQuoted = [] := by
    cases following with
    | nil => rfl
    | cons l ls => exact List.takeWhile_cons_of_neg (by simp [h l rfl])
  have hunquoted : ((first :: rest).map quotedLine).map unquoted = (first :: rest).map emptied := by
    rw [List.map_map]
    exact List.map_congr_left fun l _ => unquoted_quotedLine l
  rw [bodyOf, List.takeWhile_append_of_pos hquoted, hstop, List.append_nil, hunquoted]
  rfl

theorem dropWhile_quoted (ls following : List Text)
    (h : ∀ l ∈ following.head?, isQuoted l = false) :
    (ls.map quotedLine ++ following).dropWhile isQuoted = following := by
  have hquoted : ∀ l ∈ ls.map quotedLine, isQuoted l := by
    intro l hl
    obtain ⟨l', -, rfl⟩ := List.mem_map.mp hl
    exact isQuoted_quotedLine l'
  rw [List.dropWhile_append_of_pos hquoted]
  cases following with
  | nil => rfl
  | cons l ls => exact List.dropWhile_cons_of_neg (by simp [h l rfl])

/-! ### Heads inside a body -/

theorem theoremHead?_of_head? {line name title : Text} (hname : name ∈ defaultNames)
    (h : head? line = some (name, title)) : theoremHead? line = some (name, title) := by
  rw [theoremHead?, h, Option.filter, if_pos (List.contains_iff_mem.mpr hname)]

theorem theoremHead?_headLine {name : Text} (hname : name ∈ defaultNames) (title? : Option Text) :
    theoremHead? (headLine (nameFor name) title?) = some (name, shownTitle title?) := by
  have hread := head?_headLine name title? (t := []) (by simp)
  rw [List.append_nil, List.append_nil, nameFor_of_mem hname] at hread
  rw [nameFor_of_mem hname]
  exact theoremHead?_of_head? hname hread

theorem toEnvironmentLines_eq_self {ls : List Text} (h : ∀ l ∈ ls, theoremHead? l = none) :
    toEnvironmentLines ls = ls := by
  induction ls with
  | nil => rw [toEnvironmentLines]
  | cons l ls ih =>
    rw [toEnvironmentLines, h l List.mem_cons_self]
    simp only
    rw [ih fun l' hl' => h l' (List.mem_cons_of_mem l hl')]

/-- Trimming the end of a line makes no head of it. -/
theorem theoremHead?_stripEnd {line : Text} (h : theoremHead? line = none) :
    theoremHead? (stripEnd line) = none := by
  cases hhead : head? (stripEnd line) with
  | none => simp [theoremHead?, hhead]
  | some found =>
    obtain ⟨name, title⟩ := found
    obtain ⟨mark, rest, hmark, hline, -⟩ := head?_eq_some_iff.mp hhead
    obtain ⟨v, hv, -⟩ := Text.exists_stripEnd line
    have hread := head?_mark hmark (rest ++ v)
    rw [← List.append_assoc, ← hline, ← hv] at hread
    simp only [theoremHead?, hread, Option.filter] at h
    simp only [theoremHead?, hhead, Option.filter]
    split at h
    · cases h
    · rename_i hother
      rw [if_neg hother]

theorem theoremHead?_emptied {line : Text} (h : theoremHead? line = none) :
    theoremHead? (emptied line) = none := by
  unfold emptied
  split
  · rfl
  · exact h

theorem theoremHead?_carried {content : Text}
    (h : ∀ l ∈ lines (strip content), theoremHead? l = none) :
    ∀ l ∈ carried content, theoremHead? l = none := by
  intro l hl
  unfold carried at hl
  split at hl
  · cases hl
  · rename_i first rest hlines
    rw [hlines] at h
    rcases List.mem_cons.mp hl with rfl | hl
    · exact theoremHead?_stripEnd (h first List.mem_cons_self)
    · obtain ⟨l', hl', rfl⟩ := List.mem_map.mp hl
      exact theoremHead?_emptied (h l' (List.mem_cons_of_mem first hl'))

/-! ### The margins of a body -/

/-- The lines of a trimmed text: the first one begins, and the last one ends, with a
    character that is no blank. -/
theorem exists_lines_strip {content : Text} (h : strip content ≠ []) :
    ∃ c f rest, lines (strip content) = (c :: f) :: rest ∧ ¬ isBlank c ∧
      ∀ l ∈ rest.getLast?, ∃ l' d, l = l' ++ [d] ∧ ¬ isBlank d := by
  obtain ⟨first, rest, hlines⟩ :=
    List.exists_cons_of_ne_nil (Text.splitOn_ne_nil '\n' (strip content))
  have hstrip : strip content = first ++ rest.flatMap ('\n' :: ·) := by
    rw [← Text.unlines_cons, ← hlines]
    exact (Text.join_splitOn '\n' (strip content)).symm
  have hfeed : ¬ ¬ isBlank '\n' := by decide
  have hlast : ∀ l ∈ rest.getLast?, ∃ l' d, l = l' ++ [d] ∧ ¬ isBlank d := by
    intro l hl
    obtain ⟨init, rfl⟩ := List.getLast?_eq_some_iff.mp hl
    have hstrip' : strip content = first ++ init.flatMap ('\n' :: ·) ++ '\n' :: l := by
      rw [hstrip]
      simp
    rcases List.eq_nil_or_concat l with rfl | ⟨l', d, rfl⟩
    · exact absurd (Text.getLast?_strip (t := content) (by simp [hstrip'])) hfeed
    · have hend : strip content = (first ++ init.flatMap ('\n' :: ·) ++ '\n' :: l') ++ [d] := by
        rw [hstrip']
        simp
      refine ⟨l', d, List.concat_eq_append, ?_⟩
      exact Text.getLast?_strip (t := content) (by rw [hend]; exact List.getLast?_concat)
  cases first with
  | nil =>
    cases rest with
    | nil => exact absurd hstrip h
    | cons l ls => exact absurd (Text.head?_strip (t := content) (by simp [hstrip])) hfeed
  | cons c f => exact ⟨c, f, rest, hlines, Text.head?_strip (t := content) (by simp [hstrip]), hlast⟩

theorem strip_unlines_carried (content : Text) (h : strip content ≠ []) :
    strip (unlines (carried content)) = unlines (carried content) ∧
      unlines (carried content) ≠ [] := by
  obtain ⟨c, f, rest, hlines, hc, hlast⟩ := exists_lines_strip h
  have hfirst : stripEnd (c :: f) = c :: stripEnd f := Text.stripEnd_append_cons [] hc f
  have hcarried : unlines (carried content) =
      stripEnd (c :: f) ++ (rest.map emptied).flatMap ('\n' :: ·) := by
    rw [carried, hlines, Text.unlines_cons]
  constructor
  · rw [hcarried]
    apply Text.strip_eq_self
    · rw [hfirst]
      intro d hd
      cases hd
      exact hc
    · intro d hd
      rcases List.eq_nil_or_concat rest with rfl | ⟨init, l, rfl⟩
      · rw [List.map_nil, List.flatMap_nil, List.append_nil] at hd
        exact Text.getLast?_stripEnd hd
      · obtain ⟨l', e, rfl, he⟩ := hlast l (by simp)
        have hwritten : emptied (l' ++ [e]) = l' ++ [e] := if_neg (by simp [isBlankText, he])
        have hend : stripEnd (c :: f) ++ ((init ++ [l' ++ [e]]).map emptied).flatMap ('\n' :: ·) =
            (stripEnd (c :: f) ++ (init.map emptied).flatMap ('\n' :: ·) ++ '\n' :: l') ++ [e] := by
          simp [hwritten]
        rw [List.concat_eq_append, hend, List.getLast?_concat] at hd
        cases hd
        exact he
  · rw [hcarried, hfirst]
    exact List.cons_ne_nil _ _

/-! ### The round trip -/

section

variable {register : TheoremRegister} {name content number : Text} {kind : TheoremKind}
  {title? : Option Text}

theorem lines_render (hkind : register.kinds.get? name = some kind)
    (hheading : IsHeading kind.heading) (hnumber : IsNumber number)
    (htitle : '\n' ∉ shownTitle title?) {first : Text} {rest : List Text}
    (hlines : lines (strip content) = first :: rest) :
    lines (render register name content (some number) title?) = headLine (nameFor name) title? ::
      ((stripEnd (leadIn kind.heading (some number) ++ first) :: rest).map quotedLine ++
        [[], []]) := by
  have hcontent : ∀ l ∈ first :: rest, '\n' ∉ l := by
    intro l hl
    rw [← hlines] at hl
    exact (Text.exists_of_mem_lines hl).1
  have hlead : '\n' ∉ stripEnd (leadIn kind.heading (some number) ++ first) := by
    obtain ⟨v, hv, -⟩ := Text.exists_stripEnd (leadIn kind.heading (some number) ++ first)
    intro hmem
    have hmem' : '\n' ∈ leadIn kind.heading (some number) ++ first := by
      rw [hv]
      exact List.mem_append_left v hmem
    rcases List.mem_append.mp hmem' with hmem' | hmem'
    · exact not_mem_leadIn hheading hnumber (by decide) (by decide) (by decide) (by decide) hmem'
    · exact hcontent first List.mem_cons_self hmem'
  rw [render_eq hkind hlines]
  apply Text.lines_unlines
  intro l hl
  rcases List.mem_cons.mp hl with rfl | hl
  · exact not_mem_headLine name (by decide) (by decide) htitle
  · rcases List.mem_append.mp hl with hl | hl
    · obtain ⟨l', hl', rfl⟩ := List.mem_map.mp hl
      apply not_mem_quotedLine
      rcases List.mem_cons.mp hl' with rfl | hl'
      · exact hlead
      · exact hcontent l' (List.mem_cons_of_mem first hl')
    · have hnil : l = [] := by simpa using hl
      rw [hnil]
      exact List.not_mem_nil

/-- The body that is read from an instance holds the content alone. -/
theorem bodyOf_render (hheading : IsHeading kind.heading) (hnumber : IsNumber number)
    {first : Text} {rest : List Text} (hlines : lines (strip content) = first :: rest) :
    bodyOf ((stripEnd (leadIn kind.heading (some number) ++ first) :: rest).map quotedLine ++
      [[], []]) = carried content := by
  have hfirst : ∀ c ∈ first.head?, ¬ isBlank c := by
    intro c hc
    by_cases hnil : strip content = []
    · rw [hnil] at hlines
      cases hlines
      cases hc
    · obtain ⟨d, f, rest', hlines', hd, -⟩ := exists_lines_strip hnil
      rw [hlines'] at hlines
      cases hlines
      cases hc
      exact hd
  -- the point of the lead-in is no blank
  have hwritten : emptied (stripEnd (leadIn kind.heading (some number) ++ first)) =
      stripEnd (leadIn kind.heading (some number) ++ first) := by
    have htrim := Text.stripEnd_append_cons (kind.heading ++ ' ' :: number) (c := '.') (by decide)
      (' ' :: first)
    have hlead : leadIn kind.heading (some number) ++ first =
        kind.heading ++ ' ' :: number ++ '.' :: ' ' :: first := by
      simp [leadIn]
    rw [hlead, htrim]
    have hpoint : isBlank '.' = false := by decide
    exact if_neg (by simp [isBlankText, hpoint])
  rw [bodyOf_quoted _ _ _ (by simp [isQuoted]), hwritten,
    dropLeadIn_stripEnd hheading hnumber hfirst, carried, hlines]

/-- **A numbered theorem is read back.** -/
theorem toEnvironments_render (hname : name ∈ defaultNames)
    (hkind : register.kinds.get? name = some kind) (hheading : IsHeading kind.heading)
    (hnumber : IsNumber number) (htitle : ∀ t ∈ title?, isBlankText t ∨ '\n' ∉ t)
    (hcontent : ∀ l ∈ lines (strip content), theoremHead? l = none) :
    toEnvironments (render register name content (some number) title?) =
      unlines ((Markup.beginMarker name ++
          if shownTitle title? = [] then [] else Text.bracketed (shownTitle title?)) ::
        (if strip content = [] then [] else carried content) ++ [Markup.endMarker name]) ++
      ['\n', '\n'] := by
  obtain ⟨first, rest, hlines⟩ : ∃ first rest, lines (strip content) = first :: rest :=
    List.exists_cons_of_ne_nil (Text.splitOn_ne_nil '\n' (strip content))
  have hshown : '\n' ∉ shownTitle title? := by
    cases title? with
    | none => exact List.not_mem_nil
    | some t =>
      rcases htitle t rfl with hblank | hfeed
      · rw [shownTitle, Option.getD_some, Text.strip_eq_nil hblank]
        exact List.not_mem_nil
      · exact fun hmem => hfeed (Text.mem_of_mem_strip hmem)
  have hinside : strip (unlines (toEnvironmentLines (carried content))) =
      if strip content = [] then [] else unlines (carried content) := by
    rw [toEnvironmentLines_eq_self (theoremHead?_carried hcontent)]
    by_cases hnil : strip content = []
    · rw [if_pos hnil, carried, hnil]
      rfl
    · rw [if_neg hnil, (strip_unlines_carried content hnil).1]
  rw [toEnvironments, lines_render hkind hheading hnumber hshown hlines, toEnvironmentLines,
    theoremHead?_headLine hname]
  simp only
  rw [bodyOf_render hheading hnumber hlines, dropWhile_quoted _ _ (by simp [isQuoted]), hinside,
    toEnvironmentLines_eq_self (by simp [theoremHead?, head?, Markup.char?])]
  have htwice : strip (shownTitle title?) = shownTitle title? := Text.strip_strip _
  by_cases hnil : strip content = []
  · simp [hnil, htwice, Text.unlines_cons, List.isEmpty_iff]
  · have hfilled : (unlines (carried content)).isEmpty = false := by
      simpa using (strip_unlines_carried content hnil).2
    obtain ⟨l, ls, hcarried⟩ : ∃ l ls, carried content = l :: ls := by
      rw [carried, hlines]
      exact ⟨_, _, rfl⟩
    rw [if_neg hnil, if_neg hnil, hfilled, hcarried]
    simp [htwice, Text.unlines_cons, List.isEmpty_iff]

/-- A heading that ends in digits, a number of two groups, and a title with margins. -/
theorem toEnvironments_render_step :
    toEnvironments (render (.declare .empty ⟨"lemma", "Step 3", 0, none, false, true⟩) "lemma"
        "\n 4. Let $x$. \n\t\n> so\n" (some "1.2") (some " A 1. ")) =
      "\\begin{lemma}[A 1.]\n4. Let $x$.\n\n> so\n\\end{lemma}\n\n" := by
  have hkind : (TheoremRegister.declare .empty
      ⟨"lemma", "Step 3", 0, none, false, true⟩).kinds.get? "lemma" =
        some ⟨"lemma", "Step 3", 0, none, false, true⟩ := rfl
  rw [toEnvironments_render (by decide) hkind
    (by decide) (by decide) (by decide) (by decide)]
  decide

end

end TexMark.Callout
