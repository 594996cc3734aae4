/-
  TexMark/Proofs/Theorem/Unnumbered.lean
  ======================================
  **Unnumbered theorems read back.**  An instance of a kind that is not declared is written
  without a lead-in.  A reader of callouts does not know that: it goes by the shape of the first
  words alone (`LeadsIn`), and an instance of a declared kind may have been written with the very
  same words.  So the content comes back whole unless its first line leads in, and then without
  the words that look like a lead-in (`toEnvironments_render_unnumbered`).
-/
import TexMark.Proofs.Theorem.RoundTrip

namespace TexMark.Callout

open Text (lines unlines strip stripEnd isLineBlank)

variable {register : TheoremRegister} {name content first : Text} {rest : List Text}

/-! ### A callout of any body -/

theorem emptied_stripEnd (line : Text) : emptied (stripEnd line) = stripEnd line := by
  by_cases hblank : Text.isBlankText (stripEnd line)
  · have hnil : stripEnd line = [] := by
      rcases List.eq_nil_or_concat (stripEnd line) with hnil | ⟨init, c, hconcat⟩
      · exact hnil
      · rw [List.concat_eq_append] at hconcat
        have hc := Text.getLast?_stripEnd (t := line) (by rw [hconcat]; exact List.getLast?_concat)
        rw [hconcat] at hblank
        exact absurd (List.all_eq_true.mp hblank c (by simp)) hc
    rw [hnil]
    rfl
  · exact if_neg hblank

theorem render_eq_of_undeclared (hkind : register.kinds.get? name = none)
    (hlines : lines (strip content) = first :: rest) (number? title? : Option Text) :
    render register name content number? title? =
      unlines (headLine (nameFor name) title? ::
        ((stripEnd first :: rest).map quotedLine ++ [[], []])) := by
  unfold render
  simp only [hkind, hlines, Text.unlines_cons, List.nil_append]
  simp

/-- **Reading a callout**: its body, without the lead-in, is the content of the environment. -/
theorem toEnvironments_written (hname : name ∈ defaultNames) {ls : List Text}
    (hls : ∀ l ∈ first :: rest, '\n' ∉ l)
    (hbody : dropLeadIn (emptied first) :: rest.map emptied = ls)
    (hheads : ∀ l ∈ ls, theoremHead? l = none) :
    toEnvironments (unlines (headLine (nameFor name) none ::
        ((first :: rest).map quotedLine ++ [[], []]))) =
      unlines (Markup.beginMarker name ::
        (if strip (unlines ls) = [] then [] else [strip (unlines ls)]) ++
          [Markup.endMarker name]) ++ ['\n', '\n'] := by
  have hhead : theoremHead? (headLine (nameFor name) none) = some (name, []) :=
    theoremHead?_headLine hname none
  have hwritten : lines (unlines (headLine (nameFor name) none ::
      ((first :: rest).map quotedLine ++ [[], []]))) =
        headLine (nameFor name) none :: ((first :: rest).map quotedLine ++ [[], []]) := by
    apply Text.lines_unlines
    intro l hl
    rcases List.mem_cons.mp hl with rfl | hl
    · exact not_mem_headLine name (by decide) (by decide) (by decide)
    · rcases List.mem_append.mp hl with hl | hl
      · obtain ⟨l', hl', rfl⟩ := List.mem_map.mp hl
        exact not_mem_quotedLine (hls l' hl')
      · have hnil : l = [] := by simpa using hl
        rw [hnil]
        exact List.not_mem_nil
  have hmargin : strip ([] : Text) = [] := rfl
  rw [toEnvironments, hwritten, toEnvironmentLines, hhead]
  simp only
  rw [bodyOf_quoted _ _ _ (by simp [isQuoted]), dropWhile_quoted _ _ (by simp [isQuoted]), hbody,
    toEnvironmentLines_eq_self hheads,
    toEnvironmentLines_eq_self (by simp [theoremHead?, head?, Markup.char?])]
  by_cases hnil : strip (unlines ls) = []
  · simp [hnil, hmargin, Text.unlines_cons]
  · simp [hnil, hmargin, Text.unlines_cons, List.isEmpty_iff]

/-! ### The first words of a content -/

theorem dropLeadIn_of_leadsIn {line heading number after : Text}
    (h : LeadsIn line heading number after) : dropLeadIn line = after.dropWhile isLineBlank := by
  rw [dropLeadIn, leadNumber?_eq_some_iff.mpr ⟨heading, h⟩]

theorem dropLeadIn_eq_self {line : Text}
    (h : ∀ heading number after, ¬ LeadsIn line heading number after) : dropLeadIn line = line := by
  cases hread : leadNumber? line with
  | none => rw [dropLeadIn, hread]
  | some found =>
    obtain ⟨heading, hleads⟩ := leadNumber?_eq_some_iff.mp hread
    exact absurd hleads (h _ _ _)

theorem feed_not_mem_of_lines {t : Text} (hlines : lines t = first :: rest) :
    ∀ l ∈ stripEnd first :: rest, '\n' ∉ l := by
  have hall : ∀ l ∈ first :: rest, '\n' ∉ l := by
    intro l hl
    rw [← hlines] at hl
    exact (Text.exists_of_mem_lines hl).1
  obtain ⟨v, hv, -⟩ := Text.exists_stripEnd first
  have hfirst : '\n' ∉ stripEnd first := by
    intro hmem
    apply hall first List.mem_cons_self
    rw [hv]
    exact List.mem_append_left v hmem
  exact List.forall_mem_cons.mpr ⟨hfirst, fun l hl => hall l (List.mem_cons_of_mem first hl)⟩

/-- **An unnumbered theorem is read back**, whole if its first line does not lead in, and
    otherwise without the words that lead in. -/
theorem toEnvironments_render_unnumbered (hname : name ∈ defaultNames)
    (hkind : register.kinds.get? name = none)
    (hcontent : ∀ l ∈ lines (strip content), theoremHead? l = none) (number? : Option Text) :
    ∃ line others, carried content = line :: others ∧
      ((∀ heading number after, ¬ LeadsIn line heading number after) →
        toEnvironments (render register name content number? none) =
          unlines (Markup.beginMarker name ::
            (if strip content = [] then [] else carried content) ++ [Markup.endMarker name]) ++
          ['\n', '\n']) ∧
      ∀ heading number after, LeadsIn line heading number after →
        theoremHead? (after.dropWhile isLineBlank) = none →
        toEnvironments (render register name content number? none) =
          (let kept := strip (unlines (after.dropWhile isLineBlank :: others))
          unlines (Markup.beginMarker name :: (if kept = [] then [] else [kept]) ++
            [Markup.endMarker name]) ++ ['\n', '\n']) := by
  obtain ⟨first, rest, hlines⟩ : ∃ first rest, lines (strip content) = first :: rest :=
    List.exists_cons_of_ne_nil (Text.splitOn_ne_nil '\n' (strip content))
  have hcarried : carried content = stripEnd first :: rest.map emptied := by rw [carried, hlines]
  have hheads := theoremHead?_carried hcontent
  have hfeed := feed_not_mem_of_lines hlines
  refine ⟨stripEnd first, rest.map emptied, hcarried, ?_, ?_⟩
  · intro hnone
    have hbody : dropLeadIn (emptied (stripEnd first)) :: rest.map emptied = carried content := by
      rw [emptied_stripEnd, dropLeadIn_eq_self hnone, hcarried]
    rw [render_eq_of_undeclared hkind hlines, toEnvironments_written hname hfeed hbody hheads]
    by_cases hnil : strip content = []
    · have hempty : strip (unlines (carried content)) = [] := by
        rw [carried, hnil]
        rfl
      rw [if_pos hnil, if_pos hempty]
    · obtain ⟨hstrip, hfilled⟩ := strip_unlines_carried content hnil
      rw [if_neg hnil, hstrip, if_neg hfilled, hcarried]
      simp [Text.unlines_cons]
  · intro heading number after hleads hhead
    have hbody : dropLeadIn (emptied (stripEnd first)) :: rest.map emptied =
        after.dropWhile isLineBlank :: rest.map emptied := by
      rw [emptied_stripEnd, dropLeadIn_of_leadsIn hleads]
    have hothers : ∀ l ∈ after.dropWhile isLineBlank :: rest.map emptied, theoremHead? l = none := by
      rw [hcarried] at hheads
      exact List.forall_mem_cons.mpr ⟨hhead, fun l hl => hheads l (List.mem_cons_of_mem _ hl)⟩
    rw [render_eq_of_undeclared hkind hlines, toEnvironments_written hname hfeed hbody hothers]

theorem toEnvironments_render_unnumbered_section :
    toEnvironments (render .empty "lemma" "\n Section 3.1.  Let $x$. \n\t\n> so\n" none none) =
      "\\begin{lemma}\nLet $x$.\n\n> so\n\\end{lemma}\n\n" := by
  have hkind : TheoremRegister.empty.kinds.get? "lemma" = none := rfl
  have hcontent : ∀ l ∈ lines (strip "\n Section 3.1.  Let $x$. \n\t\n> so\n"),
      theoremHead? l = none := by decide
  obtain ⟨line, others, hcarried, -, hleads⟩ :=
    toEnvironments_render_unnumbered (by decide) hkind hcontent none
  have hwritten : carried "\n Section 3.1.  Let $x$. \n\t\n> so\n" =
      ["Section 3.1.  Let $x$.", "", "> so"] := by decide
  rw [hwritten] at hcarried
  cases hcarried
  have hends : ∀ c ∈ ("  Let $x$." : Text).head?, ¬ Text.isDecimal c := by
    intro c hc
    cases hc
    decide
  have hlead : LeadsIn "Section 3.1.  Let $x$." "Section" "3.1" "  Let $x$." :=
    ⟨by decide, by decide, rfl, ended_of_head hends⟩
  rw [hleads _ _ _ hlead (by decide)]
  decide

/-- The first words of an unnumbered instance may be lost: they are the lead-in of a numbered one,
    and both are written as the same callout.  And a line may be a head once its margin is gone. -/
theorem words_lost_of_unnumbered :
    (∀ l ∈ lines "Section 3. Let", theoremHead? l = none) ∧
    toEnvironments (render .empty "theorem" "Section 3. Let" none none) =
      "\\begin{theorem}\nLet\n\\end{theorem}\n\n" ∧
    toEnvironments (render .empty "theorem" "Section 3. Let" none none) ≠
      unlines (Markup.beginMarker "theorem" :: carried "Section 3. Let" ++
        [Markup.endMarker "theorem"]) ++ ['\n', '\n'] ∧
    render .empty "theorem" "Section 3. Let" none none =
      render (.declare .empty ⟨"theorem", "Section", 0, none, false, true⟩) "theorem" "Let"
        (some "3") none ∧
    (∀ l ∈ lines " > [!lemma]", theoremHead? l = none) ∧
    toEnvironments (render .empty "theorem" " > [!lemma]" none none) ≠
      unlines (Markup.beginMarker "theorem" :: carried " > [!lemma]" ++
        [Markup.endMarker "theorem"]) ++ ['\n', '\n'] := by
  have hwritten : render .empty "theorem" "Section 3. Let" none none =
      unlines (headLine (nameFor "theorem") none ::
        ((["Section 3. Let"] : List Text).map quotedLine ++ [[], []])) := by decide
  have hread : toEnvironments (render .empty "theorem" "Section 3. Let" none none) =
      "\\begin{theorem}\nLet\n\\end{theorem}\n\n" := by
    have hbody : dropLeadIn (emptied "Section 3. Let") :: ([] : List Text).map emptied =
        (["Let"] : List Text) := by decide
    rw [hwritten, toEnvironments_written (by decide) (by decide) hbody (by decide)]
    decide
  have hempty : toEnvironmentLines [] = [] := by rw [toEnvironmentLines]
  have hinside : toEnvironmentLines ["> [!lemma]"] =
      [Markup.beginMarker "lemma", Markup.endMarker "lemma"] := by
    have hhead : theoremHead? "> [!lemma]" = some (("lemma" : Text), []) := by decide
    rw [toEnvironmentLines, hhead]
    simp only
    rw [show bodyOf [] = [] from rfl, List.dropWhile_nil, hempty]
    decide
  have houtside : toEnvironmentLines ["> [!theorem]", "> > [!lemma]", "", ""] =
      [Markup.beginMarker "theorem", unlines [Markup.beginMarker "lemma", Markup.endMarker "lemma"],
        Markup.endMarker "theorem", [], []] := by
    have hhead : theoremHead? "> [!theorem]" = some (("theorem" : Text), []) := by decide
    rw [toEnvironmentLines, hhead]
    simp only
    rw [show bodyOf ["> > [!lemma]", "", ""] = (["> [!lemma]"] : List Text) by decide, hinside,
      show List.dropWhile isQuoted ["> > [!lemma]", "", ""] = [[], []] by decide,
      toEnvironmentLines_eq_self (by decide)]
    decide
  have hlines : lines (render .empty "theorem" " > [!lemma]" none none) =
      (["> [!theorem]", "> > [!lemma]", "", ""] : List Text) := by decide
  refine ⟨by decide, hread, ?_, by decide, by decide, ?_⟩
  · rw [hread]
    decide
  · rw [toEnvironments, hlines, houtside]
    decide

end TexMark.Callout
