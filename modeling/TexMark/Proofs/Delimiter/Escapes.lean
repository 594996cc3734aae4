/-
  TexMark/Proofs/Delimiter/Escapes.lean
  =====================================
  **Escaped delimiters.**  A delimiter that is written counts only if the backslashes in front of
  it escape nothing more.  The opener of a formula stands where that of the pair stood, and the
  pairs in front of it end in something other than a backslash, so it always counts.  The closer
  stands behind trimmed content, which may have lost the blank of a control space.

    * `endsInControlSpace_iff` — trimming takes the blank of a backslash only at the end of a
      content;
    * `escapedBehind_interior` — of a display formula that matters only on one line;
    * `delimiters_of_pair` — when the closer of a formula does not count.
-/
import TexMark.Proofs.Delimiter.Display
import TexMark.Proofs.Delimiter.Quotation

namespace TexMark.Delimiter

open BlockQuote (isQuoting prefixAt stripLine)
open Scan (escapedBehind isEscaped)
open Text (EndsWritten isBlank strip)

variable {rules : List DelimiterRule} {front content t : Text}

/-! ### Trimming -/

/-- A **control space** stands at the end: a backslash that is not escaped, and behind it one or
    more blanks. -/
def EndsInControlSpace (t : Text) : Prop :=
  ∃ u c w, t = u ++ '\\' :: c :: w ∧ escapedBehind false u = false ∧ ∀ d ∈ c :: w, isBlank d

/-- What is taken away in front escapes nothing. -/
theorem escapedBehind_strip (ht : EndsWritten t) :
    escapedBehind false (strip t) = escapedBehind false t := by
  obtain ⟨hends, -⟩ := ht.exists_skipBlanks
  have hblank : ∀ c ∈ t.takeWhile isBlank, isBlank c := fun c hc => List.mem_takeWhile_imp hc
  rw [Text.strip_eq_stripEnd, hends.stripEnd_eq]
  conv_rhs => rw [← List.takeWhile_append_dropWhile (p := isBlank) (l := t)]
  rw [Scan.escapedBehind_append, escapedBehind_of_blank hblank]
  rfl

theorem endsWritten_backslash (u : Text) : EndsWritten (u ++ ['\\']) :=
  ⟨'\\', List.getLast?_concat, by decide⟩

/-- **What trimming takes from a backslash.** -/
theorem endsInControlSpace_iff (ht : escapedBehind false t = false) :
    EndsInControlSpace t ↔ escapedBehind false (strip t) = true := by
  constructor
  · rintro ⟨u, c, w, rfl, hu, hblank⟩
    rw [← List.singleton_append, ← List.append_assoc, Text.strip_append_blank hblank,
      escapedBehind_strip (endsWritten_backslash u), Scan.escapedBehind_append, hu]
    rfl
  · intro hescaped
    obtain ⟨p, w, heq, hp, hw⟩ := Text.exists_strip t
    have hnil : strip t ≠ [] := by
      intro hnil
      rw [hnil] at hescaped
      cases hescaped
    obtain ⟨s, c, hs⟩ := (List.eq_nil_or_concat (strip t)).resolve_left hnil
    rw [List.concat_eq_append] at hs
    rw [hs, Scan.escapedBehind_append, Scan.escapedBehind_cons, Scan.escapedBehind_nil,
      Bool.and_eq_true, Bool.not_eq_true', beq_iff_eq] at hescaped
    obtain ⟨rfl, hunescaped⟩ := hescaped
    have hbehind : escapedBehind false (p ++ s) = false := by
      rw [Scan.escapedBehind_append, escapedBehind_of_blank hp, hunescaped]
    have heq' : t = (p ++ s) ++ '\\' :: w := by
      rw [heq, hs]
      simp
    cases w with
    | nil =>
      -- the backslash would escape what stands behind the text
      rw [heq', Scan.escapedBehind_append, hbehind] at ht
      cases ht
    | cons c w => exact ⟨p ++ s, c, w, heq', hbehind, hw⟩

/-! ### Interiors -/

theorem mem_stripEnd {c : Char} (hblank : ¬ isBlank c) (hc : c ∈ t) : c ∈ Text.stripEnd t := by
  obtain ⟨v, heq, hv⟩ := Text.exists_stripEnd t
  rw [heq] at hc
  exact (List.mem_append.mp hc).resolve_right fun hmem => hblank (hv c hmem)

theorem mem_strip {c : Char} (hblank : ¬ isBlank c) (hc : c ∈ t) : c ∈ strip t := by
  apply mem_stripEnd hblank
  rw [← List.takeWhile_append_dropWhile (p := isBlank) (l := t)] at hc
  exact (List.mem_append.mp hc).resolve_left fun hmem => hblank (List.mem_takeWhile_imp hmem)

/-- Only the characters of prefixes are taken away with a prefix. -/
theorem mem_stripLine {c : Char} (hfront : c ∉ front) (hblank : ¬ isBlank c) (hc : c ∈ t) :
    c ∈ stripLine front t := by
  unfold stripLine
  split
  · rename_i rest hrest
    rw [Text.dropPrefix?_eq_some_iff.mp hrest] at hc
    exact (List.mem_append.mp hc).resolve_left hfront
  · split
    · rename_i heq
      have hmem := mem_stripEnd hblank hc
      rw [heq] at hmem
      exact absurd ((List.rdropWhile_prefix isBlank front).subset hmem) hfront
    · exact hc

/-- What is neither a blank nor part of a prefix stands on some line of the formula. -/
theorem exists_mem_bodyLines {c : Char} (hfront : c ∉ front) (hblank : ¬ isBlank c)
    (hc : c ∈ content) : ∃ l ∈ bodyLines front content, c ∈ l := by
  have hlines : c ∈ Text.unlines (Text.lines content) := by
    rwa [show Text.unlines (Text.lines content) = content from Text.join_splitOn '\n' content]
  have hfeed : c ≠ '\n' := by
    rintro rfl
    exact hblank rfl
  obtain ⟨line, hline, hmem⟩ : ∃ line ∈ Text.lines content, c ∈ line := by
    by_contra hnone
    exact Text.not_mem_unlines hfeed (fun l hl hmem => hnone ⟨l, hl, hmem⟩) hlines
  have hstrip := mem_strip hblank (mem_stripLine hfront hblank hmem)
  refine ⟨strip (stripLine front line), List.mem_filter.mpr ⟨?_, ?_⟩, hstrip⟩
  · rw [BlockQuote.stripLines_eq]
    exact List.mem_map_of_mem (List.mem_map_of_mem hline)
  · rw [Bool.not_eq_true', List.isEmpty_eq_false_iff]
    exact List.ne_nil_of_mem hstrip

/-- The line of a formula that stands on one line escapes what its content does. -/
theorem escapedBehind_line (hfront : ∀ c ∈ front, isQuoting c) (hfeed : '\n' ∉ strip content)
    {l : Text} (hl : l ∈ bodyLines front content) :
    escapedBehind false l = escapedBehind false (strip content) := by
  obtain ⟨u, w, v, rfl, hu, hw, hv⟩ := exists_line_of_mem_bodyLines hfront hl
  obtain ⟨hstrip, hne, -⟩ := isBodyLine_of_mem hl
  have hends : EndsWritten l := by
    have hlast : l.getLast hne ∈ (strip l).getLast? := by
      rw [hstrip]
      exact List.getLast?_eq_some_getLast hne
    exact ⟨l.getLast hne, List.getLast?_eq_some_getLast hne, Text.getLast?_strip hlast⟩
  -- below the line there are only blanks
  have hblank : ∀ c ∈ v, isBlank c := by
    by_contra hwritten
    obtain ⟨y, hy⟩ : ∃ y, v.dropWhile isBlank = y := ⟨_, rfl⟩
    have hyne : y ≠ [] := by
      rintro rfl
      exact hwritten (List.dropWhile_eq_nil_iff.mp hy)
    have hbegins : Text.BeginsWritten y := by
      subst hy
      exact ⟨_, List.head?_eq_some_head hyne, by simpa using List.head_dropWhile_not isBlank hyne⟩
    have hborder : u ++ (l ++ (w ++ v)) = (u ++ l) ++ ((w ++ v.takeWhile isBlank) ++ y) := by
      conv_lhs => rw [← List.takeWhile_append_dropWhile (p := isBlank) (l := v), hy]
      simp
    rw [hborder, Text.strip_append (hends.append u) hbegins] at hfeed
    obtain ⟨d, x, rfl⟩ : ∃ d x, v = d :: x := by
      apply List.exists_cons_of_ne_nil
      rintro rfl
      exact hwritten nofun
    obtain rfl := hv d rfl
    have htake : '\n' ∈ ('\n' :: x).takeWhile isBlank := by
      rw [List.takeWhile_cons_of_pos (by decide)]
      exact List.mem_cons_self
    exact hfeed (List.mem_append_right _ (List.mem_append_left _ (List.mem_append_right w htake)))
  rw [← List.append_assoc, Text.strip_append_blank (List.forall_mem_append.mpr ⟨hw, hblank⟩),
    escapedBehind_strip (hends.append u), Scan.escapedBehind_append, hu]

theorem escapedBehind_ownLines (hfront : ∀ c ∈ front, isQuoting c) (ls : List Text) :
    escapedBehind false (ownLines front ls) = false := by
  have hbreak : ∀ escaped, escapedBehind escaped ('\n' :: front) = false := by
    intro escaped
    rw [Scan.escapedBehind_cons, beq_false_of_ne (by decide), Bool.false_and]
    exact escapedBehind_of_quoting hfront
  rw [ownLines, Scan.escapedBehind_append, hbreak]
  induction ls with
  | nil => rfl
  | cons l ls ih =>
    rw [List.flatMap_cons, Scan.escapedBehind_append, Scan.escapedBehind_append, hbreak]
    exact ih

/-- **What an interior escapes.** -/
theorem escapedBehind_interior (kind : FormulaKind) (hfront : ∀ c ∈ front, isQuoting c)
    (hcontent : escapedBehind false content = false) :
    escapedBehind false (interior kind front content) = true ↔
      (kind = .inline ∨ '\n' ∉ strip content) ∧ EndsInControlSpace content := by
  rw [endsInControlSpace_iff hcontent]
  cases kind with
  | inline => simp [interior]
  | display =>
    rw [interior, displayInterior, ← onOneLine_iff front content]
    by_cases hone : onOneLine front content = true
    · have hfeed := (onOneLine_iff front content).mp hone
      rw [if_pos hone]
      simp only [hone, or_true, true_and]
      simp only [onOneLine, Bool.and_eq_true, decide_eq_true_eq] at hone
      rcases hls : bodyLines front content with _ | ⟨l, _ | ⟨l', ls⟩⟩
      · -- a backslash of the content would stand on a line
        have hmem : '\\' ∉ strip content := by
          intro hmem
          have hfront' : '\\' ∉ front := BlockQuote.not_mem_of_isQuoting hfront (by decide)
          obtain ⟨l, hl, -⟩ :=
            exists_mem_bodyLines hfront' (by decide) (Text.mem_of_mem_strip hmem)
          rw [hls] at hl
          cases hl
        rw [Scan.escapedBehind_of_not_mem hmem]
        rfl
      · have hl : l ∈ bodyLines front content := by rw [hls]; exact List.mem_singleton_self l
        rw [List.flatten_singleton, escapedBehind_line hfront hfeed hl]
      · rw [hls] at hone
        simp at hone
    · rw [if_neg hone, escapedBehind_ownLines hfront]
      simp [hone]

/-! ### Written delimiters -/

/-- In front of a pair what has been written escapes nothing. -/
theorem Rewritten.unescaped (hrules : Dialect rules) {text out : Text} {is pre post : List Item}
    {rule : DelimiterRule} {a b : Hit Text} (h : Rewritten rules text 0 text is out)
    (his : is = pre ++ .pair rule a b :: post) :
    rule ∈ rules ∧
      escapedBehind false (Edit.splice text 0 a.start (edits text pre)) = false ∧
      escapedBehind false (Text.slice text a.stop b.start) = false := by
  have hlone : ∀ {pos t gap rest before} {h : Hit Text}, text.drop pos = t →
      First rules false pos t gap h rest → escapedBehind false before = false →
      escapedBehind false (before ++ (gap ++ h.value)) = false := by
    intro pos t gap rest before h _ hfirst _
    rw [← List.append_assoc, Scan.escapedBehind_append]
    exact (hrules.formed _ hfirst.mem).escapedBehind _
  have hpair : ∀ {pos t gap rest inner rest' before} {rule : DelimiterRule} {h k : Hit Text},
      text.drop pos = t → rule ∈ rules → First rules false pos t gap h rest →
      First rules false h.stop rest inner k rest' → escapedBehind false before = false →
      escapedBehind false (before ++ (gap ++ render rule text h.start inner)) = false := by
    intro pos t gap rest inner rest' before rule h k _ hrule _ _ _
    have hcloser := hrules.foreign _ (mem_targets hrule).2
    simp only [render_eq, Scan.escapedBehind_append]
    exact Scan.escapedBehind_of_getLast hcloser.ne_nil hcloser.last
  have hnone : escapedBehind false [] = false := rfl
  obtain ⟨pos', before', gap, rest, inner, rest', hrule, hbefore, heq, hfirst, hsecond⟩ :=
    h.reaches (fun _ before => escapedBehind false before = false) hlone hpair rfl hnone his
  rw [List.nil_append] at heq
  refine ⟨hrule, ?_, ?_⟩
  · rw [heq, Scan.escapedBehind_append, hbefore, hfirst.unescaped]
  · rw [hsecond.slice_eq (hfirst.drop_eq rfl)]
    exact hsecond.unescaped

theorem isEscaped_append (u v : Text) : isEscaped (u ++ v) u.length = escapedBehind false u := by
  rw [Scan.isEscaped_eq, List.take_left]

/-- **The delimiters of a pair in the output.**  The opener counts.  The closer does not count
    exactly if the formula is written on one line and its content ends in a control space: the
    blank is trimmed away, and the backslash escapes the closer. -/
theorem delimiters_of_pair (direction : Direction) (text : Text) {pre post : List Item}
    {rule : DelimiterRule} {a b : Hit Text}
    (hfound : found (Phase.delimiterRules direction) text = pre ++ .pair rule a b :: post) :
    ∃ before body below out,
      (normalize (Phase.delimiterRules direction) text).result = .ok out ∧
      out = before ++ (rule.targetOpener ++ (body ++ (rule.targetCloser ++ below))) ∧
      before = Edit.splice text 0 a.start (edits text pre) ∧
      below = Edit.splice text b.stop text.length (edits text post) ∧
      isEscaped out before.length = false ∧
      (isEscaped out (before ++ (rule.targetOpener ++ body)).length = true ↔
        (rule.kind = .inline ∨ '\n' ∉ strip (Text.slice text a.stop b.start)) ∧
          EndsInControlSpace (Text.slice text a.stop b.start)) := by
  have hrules := dialect direction
  generalize Phase.delimiterRules direction = rules at hrules hfound
  obtain ⟨hrule, hbefore, hcontent⟩ := (rewritten_output hrules text).unescaped hrules hfound
  have hopener := hrules.foreign _ (mem_targets hrule).1
  have hquoting : ∀ c ∈ prefixAt text a.start, isQuoting c :=
    fun _ => BlockQuote.isQuoting_of_mem_prefixAt
  have hinterior := escapedBehind_interior rule.kind hquoting hcontent
  have hout : output rules text = Edit.splice text 0 a.start (edits text pre) ++
      (rule.targetOpener ++ (interior rule.kind (prefixAt text a.start)
        (Text.slice text a.stop b.start) ++ (rule.targetCloser ++
          Edit.splice text b.stop text.length (edits text post)))) := by
    rw [output, hfound, edits_append, edits_pair, Edit.splice_append_cons, render_eq]
    simp only [List.append_assoc]
  generalize interior rule.kind (prefixAt text a.start) (Text.slice text a.stop b.start) = body
    at hinterior hout
  refine ⟨_, body, _, _, result_normalize hrules text, hout, rfl, rfl, ?_, ?_⟩
  · rw [hout, isEscaped_append, hbefore]
  · have hsplit : output rules text = (Edit.splice text 0 a.start (edits text pre) ++
        (rule.targetOpener ++ body)) ++ (rule.targetCloser ++
          Edit.splice text b.stop text.length (edits text post)) := by
      rw [hout]
      simp only [List.append_assoc]
    rw [hsplit, isEscaped_append, Scan.escapedBehind_append, Scan.escapedBehind_append, hbefore,
      Scan.escapedBehind_of_getLast hopener.ne_nil hopener.last]
    exact hinterior

/-- The control space at the end of an inline formula. -/
theorem delimiters_of_pair_controlSpace :
    found forwardRules "\\(a\\ \\)" =
      [.pair ⟨.inline, "\\(", "\\)", "$", "$"⟩ ⟨0, 2, "\\("⟩ ⟨5, 7, "\\)"⟩] ∧
    ∃ before body below out, (normalize forwardRules "\\(a\\ \\)").result = .ok out ∧
      out = before ++ ("$" ++ (body ++ ("$" ++ below))) ∧
      isEscaped out before.length = false ∧
      isEscaped out (before ++ ("$" ++ body)).length = true := by
  have hfound : found forwardRules "\\(a\\ \\)" =
      [.pair ⟨.inline, "\\(", "\\)", "$", "$"⟩ ⟨0, 2, "\\("⟩ ⟨5, 7, "\\)"⟩] := by
    unfold found delimiters
    rw [tokens_forwardRules]
    rfl
  obtain ⟨before, body, below, out, hresult, hout, -, -, hopener, hcloser⟩ :=
    delimiters_of_pair .forward "\\(a\\ \\)" (hfound.trans (List.nil_append _).symm)
  have hspace : EndsInControlSpace (Text.slice "\\(a\\ \\)" 2 5) :=
    ⟨"a", ' ', [], rfl, rfl, List.forall_mem_singleton.mpr rfl⟩
  exact ⟨hfound, before, body, below, out, hresult, hout, hopener,
    hcloser.mpr ⟨.inl rfl, hspace⟩⟩

/-- A closer that does not count is written, in both directions. -/
theorem escaped_closer_written :
    (normalize forwardRules "\\(a\\ \\)").result = .ok ("$" ++ ("a\\" ++ "$")) ∧
    isEscaped ("$" ++ ("a\\" ++ "$")) ("$" ++ "a\\").length = true ∧
    (normalize reverseRules "$a\\ $").result = .ok ("\\(" ++ ("a\\" ++ "\\)")) ∧
    isEscaped ("\\(" ++ ("a\\" ++ "\\)")) ("\\(" ++ "a\\").length = true := by
  have hforward : output forwardRules "\\(a\\ \\)" = "$" ++ ("a\\" ++ "$") := by
    unfold output found delimiters
    rw [tokens_forwardRules]
    decide
  have hreverse : output reverseRules "$a\\ $" = "\\(" ++ ("a\\" ++ "\\)") := by
    unfold output found delimiters
    rw [tokens_reverseRules]
    decide
  refine ⟨?_, by decide, ?_, by decide⟩
  · rw [result_normalize dialect_forwardRules, hforward]
  · rw [result_normalize dialect_reverseRules, hreverse]

end TexMark.Delimiter
