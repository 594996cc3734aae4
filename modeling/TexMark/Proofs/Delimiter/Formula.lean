/-
  TexMark/Proofs/Delimiter/Formula.lean
  =====================================
  **What stands between written delimiters.**  A formula is written as the delimiters of the
  other dialect around an interior (`render_eq`).  The interior holds the lines of the content
  without their margins (`bodyLines`), side by side with line feeds and quote prefixes only.

    * `bare_of_mem_bodyLines` — a line of a formula is a piece of the content;
    * `bodyLines_displayInterior` — the lines of an interior are those it was made of;
    * `prefix_of_mem_lines` — each line of a formula in a quotation begins with the prefix.
-/
import TexMark.Proofs.Delimiter.Cut
import TexMark.Proofs.Lines

namespace TexMark.Delimiter

open BlockQuote (isQuoting isBlankText_stripLine prefixAt stripLine stripLine_append
  stripLine_nil stripLines stripLines_eq)
open Scan (escapedBehind)

/-- The lines of a display formula: without the prefix, without margins, and not empty. -/
def bodyLines (front content : Text) : List Text :=
  ((stripLines front (Text.lines content)).map Text.strip).filter fun line => !line.isEmpty

/-- Lines on lines of their own, each behind the prefix, and the prefix of the line behind
    them. -/
def ownLines (front : Text) (ls : List Text) : Text :=
  '\n' :: front ++ ls.flatMap fun l => l ++ '\n' :: front

/-- Is the formula written on the line of its delimiters? -/
def onOneLine (front content : Text) : Bool :=
  !(Text.strip content).contains '\n' && (bodyLines front content).length ≤ 1

/-- What is written between the delimiters of a display formula. -/
def displayInterior (front content : Text) : Text :=
  if onOneLine front content then (bodyLines front content).flatten
  else ownLines front (bodyLines front content)

/-- What is written between the delimiters of a formula. -/
def interior (kind : FormulaKind) (front content : Text) : Text :=
  match kind with
  | .inline => Text.strip content
  | .display => displayInterior front content

theorem unlines_ownLines (opener closer front : Text) (ls : List Text) :
    Text.unlines (opener :: (ls.map (front ++ ·) ++ [front ++ closer])) =
      opener ++ (ownLines front ls ++ closer) := by
  rw [Text.unlines_cons]
  congr 1
  induction ls with
  | nil => simp [ownLines]
  | cons l ls ih =>
    simp only [ownLines, List.cons_append, List.append_assoc] at ih ⊢
    simp [ih]

theorem displayBlock_eq (content front opener closer : Text) :
    displayBlock content front (!(Text.strip content).contains '\n') opener closer =
      opener ++ (displayInterior front content ++ closer) := by
  change (if onOneLine front content then opener ++ (bodyLines front content).flatten ++ closer
    else Text.unlines (opener :: ((bodyLines front content).map (front ++ ·) ++
      [front ++ closer]))) = _
  rw [displayInterior]
  split
  · rw [List.append_assoc]
  · exact unlines_ownLines opener closer front _

/-- **A formula is its interior between the delimiters of the other dialect.** -/
theorem render_eq (rule : DelimiterRule) (text : Text) (start : Nat) (content : Text) :
    render rule text start content =
      rule.targetOpener ++ (interior rule.kind (prefixAt text start) content ++
        rule.targetCloser) := by
  unfold render interior
  cases rule.kind with
  | inline => simp
  | display => exact displayBlock_eq content _ _ _

/-! ### Lines of a formula -/

theorem escapedBehind_of_blank {u : Text} (hu : ∀ c ∈ u, Text.isBlank c) :
    escapedBehind false u = false := by
  refine Scan.escapedBehind_of_not_mem fun h => ?_
  have := hu _ h
  revert this
  decide

theorem escapedBehind_of_quoting {u : Text} (hu : ∀ c ∈ u, isQuoting c) :
    escapedBehind false u = false :=
  Scan.escapedBehind_of_not_mem (BlockQuote.not_mem_of_isQuoting hu (by decide))

theorem escapedBehind_of_atLineStart {u : Text} (hu : Scan.atLineStart u.reverse) :
    escapedBehind false u = false := by
  cases h : u.reverse with
  | nil => rw [List.reverse_eq_nil_iff.mp h]; rfl
  | cons c r =>
    have hc : c = '\n' := by simpa [h, Scan.atLineStart] using hu
    rw [← List.reverse_reverse u, h, hc, List.reverse_cons]
    exact Scan.escapedBehind_concat false _ (by decide)

theorem exists_strip_infix (t : Text) :
    ∃ u v, t = u ++ (Text.strip t ++ v) ∧ escapedBehind false u = false := by
  obtain ⟨u, v, heq, hu, -⟩ := Text.exists_strip t
  exact ⟨u, v, heq, escapedBehind_of_blank hu⟩

theorem exists_of_mem_stripLines {front x : Text} {ls : List Text}
    (hx : x ∈ stripLines front ls) :
    ∃ line ∈ ls, ∃ u v, line = u ++ (x ++ v) ∧ (∀ c ∈ u, c ∈ front) ∧ (x ≠ [] → v = []) := by
  rw [stripLines_eq] at hx
  obtain ⟨line, hline, rfl⟩ := List.mem_map.mp hx
  refine ⟨line, hline, ?_⟩
  unfold stripLine
  split
  · rename_i rest hrest
    refine ⟨front, [], ?_, fun c hc => hc, fun _ => rfl⟩
    rw [List.append_nil]
    exact Text.dropPrefix?_eq_some_iff.mp hrest
  · split
    · exact ⟨[], line, rfl, nofun, fun h => absurd rfl h⟩
    · exact ⟨[], [], by simp, nofun, fun _ => rfl⟩

/-- A line of a formula is a piece of the content that begins unescaped.  Behind it there are only
    blanks on its line. -/
theorem exists_line_of_mem_bodyLines {front content l : Text}
    (hfront : ∀ c ∈ front, isQuoting c) (hl : l ∈ bodyLines front content) :
    ∃ u w v, content = u ++ (l ++ (w ++ v)) ∧ escapedBehind false u = false ∧
      (∀ c ∈ w, Text.isBlank c) ∧ ∀ d ∈ v.head?, d = '\n' := by
  obtain ⟨hmem, hne⟩ := List.mem_filter.mp hl
  obtain ⟨x, hx, rfl⟩ := List.mem_map.mp hmem
  obtain ⟨line, hline, u₁, v₁, rfl, h₁, hv₁⟩ := exists_of_mem_stripLines hx
  obtain ⟨-, u₀, v₀, rfl, hstart, hend⟩ := Text.exists_line_of_mem_lines hline
  obtain ⟨u₂, v₂, hstrip, h₂, hv₂⟩ := Text.exists_strip x
  have hx : x ≠ [] := by
    rintro rfl
    simp [show Text.strip [] = [] from rfl] at hne
  have hquoting : escapedBehind false u₁ = false :=
    escapedBehind_of_quoting fun c hc => hfront c (h₁ c hc)
  refine ⟨u₀ ++ (u₁ ++ u₂), v₂, v₀, ?_, ?_, hv₂, hend⟩
  · rw [hv₁ hx]
    conv_lhs => rw [hstrip]
    simp
  · simp [escapedBehind_of_atLineStart hstart, hquoting, escapedBehind_of_blank h₂]

theorem exists_of_mem_bodyLines {front content l : Text} (hfront : ∀ c ∈ front, isQuoting c)
    (hl : l ∈ bodyLines front content) :
    ∃ u v, content = u ++ (l ++ v) ∧ escapedBehind false u = false := by
  obtain ⟨u, w, v, hcontent, hu, -⟩ := exists_line_of_mem_bodyLines hfront hl
  exact ⟨u, w ++ v, hcontent, hu⟩

/-- Lines without margins and line feeds that are not empty. -/
structure IsBodyLine (l : Text) : Prop where
  strip_eq : Text.strip l = l
  ne_nil : l ≠ []
  no_feed : '\n' ∉ l

theorem isBodyLine_of_mem {front content l : Text} (hl : l ∈ bodyLines front content) :
    IsBodyLine l := by
  obtain ⟨hmem, hne⟩ := List.mem_filter.mp hl
  obtain ⟨x, hx, rfl⟩ := List.mem_map.mp hmem
  refine ⟨Text.strip_strip x, by simpa using hne, fun hfeed => ?_⟩
  obtain ⟨line, hline, u, v, rfl, -, -⟩ := exists_of_mem_stripLines hx
  obtain ⟨u', v', hx', -⟩ := exists_strip_infix x
  have hmemx : '\n' ∈ x := by
    rw [hx']
    simp [hfeed]
  exact (Text.exists_of_mem_lines hline).1 (by simp [hmemx])

theorem bare_of_mem_bodyLines {ds : List Text} {front content l : Text}
    (hfront : ∀ c ∈ front, isQuoting c) (hbare : Bare ds false content)
    (hl : l ∈ bodyLines front content) : Bare ds false l := by
  obtain ⟨u, v, rfl, hu⟩ := exists_of_mem_bodyLines hfront hl
  exact hu ▸ hbare.infix

theorem bare_strip {ds : List Text} {content : Text} (hbare : Bare ds false content) :
    Bare ds false (Text.strip content) := by
  obtain ⟨u, v, heq, hu⟩ := exists_strip_infix content
  rw [heq] at hbare
  exact hu ▸ hbare.infix

theorem length_bodyLines_le (front content : Text) :
    (bodyLines front content).length ≤ Text.height content := by
  rw [bodyLines, ← List.countP_eq_length_filter, List.countP_map, stripLines_eq, List.countP_map]
  apply List.countP_mono_left
  intro l _ hl
  by_contra hblank
  have hblank' : Text.isBlankText l := by simpa using hblank
  simp [Text.strip_eq_nil (isBlankText_stripLine front hblank')] at hl

theorem onOneLine_iff (front content : Text) :
    onOneLine front content = true ↔ '\n' ∉ Text.strip content := by
  constructor
  · intro h hfeed
    simp [onOneLine, hfeed] at h
  · intro h
    have hheight := Text.height_le_one h
    have hlength := length_bodyLines_le front content
    simp only [onOneLine, Bool.and_eq_true, decide_eq_true_eq]
    exact ⟨by simpa using h, by omega⟩

/-! ### Lines of what is written -/

section Written

variable {front w m : Text} {ls : List Text}

theorem lines_ownLines (hfront : '\n' ∉ front) (hls : ∀ l ∈ ls, '\n' ∉ l) (hw : '\n' ∉ w)
    (hm : '\n' ∉ m) : Text.lines (w ++ (ownLines front ls ++ m)) =
      w :: (ls.map (front ++ ·) ++ [front ++ m]) := by
  rw [← unlines_ownLines]
  apply Text.lines_unlines
  intro x hx
  rcases List.mem_cons.mp hx with rfl | hx
  · exact hw
  rcases List.mem_append.mp hx with hx | hx
  · obtain ⟨l, hl, rfl⟩ := List.mem_map.mp hx
    simp [hfront, hls l hl]
  · rw [List.mem_singleton.mp hx]
    simp [hfront, hm]

/-- The lines read between delimiters on lines of their own are those written there. -/
theorem bodyLines_ownLines (hfront : '\n' ∉ front) (hls : ∀ l ∈ ls, IsBodyLine l) :
    bodyLines front (ownLines front ls) = ls := by
  have hlines : Text.lines (ownLines front ls) = [] :: (ls.map (front ++ ·) ++ [front ++ []]) := by
    have := lines_ownLines hfront (fun l hl => (hls l hl).no_feed) (w := []) (m := []) nofun nofun
    simpa using this
  have hstripped : stripLines front (Text.lines (ownLines front ls)) = [] :: (ls ++ [[]]) := by
    rw [stripLines_eq, hlines]
    simp only [List.map_cons, List.map_append, List.map_map, List.map_nil, stripLine_nil,
      stripLine_append]
    congr 2
    exact List.map_id'' (fun l => stripLine_append front l) ls
  have hkept : (ls.map Text.strip).filter (fun line => !line.isEmpty) = ls := by
    rw [List.map_congr_left fun l hl => (hls l hl).strip_eq, List.map_id']
    apply List.filter_eq_self.mpr
    intro l hl
    simpa using (hls l hl).ne_nil
  have hempty : Text.strip [] = [] := rfl
  rw [bodyLines, hstripped, List.map_cons, List.map_append, List.map_singleton, hempty]
  simp only [List.filter_cons, List.filter_append, hkept]
  simp

/-- The lines of a formula are read again, unless a line on its own would be taken for one that
    begins with the prefix. -/
theorem bodyLines_displayInterior {content : Text} (hfront : '\n' ∉ front)
    (hline : '\n' ∉ Text.strip content →
      stripLine front (bodyLines front content).flatten = (bodyLines front content).flatten) :
    bodyLines front (displayInterior front content) = bodyLines front content := by
  have hls : ∀ l ∈ bodyLines front content, IsBodyLine l := fun l hl => isBodyLine_of_mem hl
  rw [displayInterior]
  split
  · rename_i hone
    have hsame := hline ((onOneLine_iff front content).mp hone)
    simp only [onOneLine, Bool.and_eq_true, decide_eq_true_eq] at hone
    rcases hbody : bodyLines front content with _ | ⟨l, _ | ⟨l', ls⟩⟩
    · have hempty : Text.lines [] = [[]] := rfl
      rw [List.flatten_nil, bodyLines, hempty, stripLines_eq, List.map_singleton, stripLine_nil]
      rfl
    · obtain ⟨hstrip, hne, hfeed⟩ := hls l (by simp [hbody])
      rw [hbody, List.flatten_singleton] at hsame
      rw [List.flatten_singleton, bodyLines, Text.lines_of_not_mem hfeed, stripLines_eq]
      simp [hsame, hstrip, hne]
    · simp [hbody] at hone
  · exact bodyLines_ownLines hfront hls

/-- A formula with one line of content stays on the line of its delimiters. -/
theorem not_mem_displayInterior {content : Text} (hcontent : '\n' ∉ Text.strip content) :
    '\n' ∉ displayInterior front content := by
  intro hfeed
  rw [displayInterior, if_pos ((onOneLine_iff front content).mpr hcontent)] at hfeed
  obtain ⟨l, hl, hmem⟩ := List.mem_flatten.mp hfeed
  exact (isBodyLine_of_mem hl).no_feed hmem

/-- Each line of a formula on lines of its own begins with the prefix. -/
theorem prefix_of_mem_lines (hfront : '\n' ∉ front) (hw : '\n' ∉ w) (hm : '\n' ∉ m)
    {content line : Text}
    (hline : line ∈ Text.lines (front ++ (w ++ (displayInterior front content ++ m)))) :
    front <+: line := by
  by_cases hcontent : '\n' ∉ Text.strip content
  · have hfeed : '\n' ∉ displayInterior front content := not_mem_displayInterior hcontent
    rw [Text.lines_of_not_mem (by simp [hfront, hw, hfeed, hm]), List.mem_singleton] at hline
    rw [hline]
    exact List.prefix_append front _
  · have hls : ∀ l ∈ bodyLines front content, '\n' ∉ l := fun l hl => (isBodyLine_of_mem hl).no_feed
    have hown : ¬ onOneLine front content = true := fun h => hcontent ((onOneLine_iff _ _).mp h)
    rw [displayInterior, if_neg hown, ← List.append_assoc,
      lines_ownLines hfront hls (by simp [hfront, hw]) hm] at hline
    rcases List.mem_cons.mp hline with rfl | hline
    · exact List.prefix_append front w
    rcases List.mem_append.mp hline with hline | hline
    · obtain ⟨l, -, rfl⟩ := List.mem_map.mp hline
      exact List.prefix_append front l
    · rw [List.mem_singleton.mp hline]
      exact List.prefix_append front m

end Written

end TexMark.Delimiter
