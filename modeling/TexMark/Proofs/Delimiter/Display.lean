/-
  TexMark/Proofs/Delimiter/Display.lean
  =====================================
  **Formulas between their markers.**  A display formula outside quotations is shown line by line,
  without margins and empty lines (`display_eq`).  Two parts of it are shown side by side if
  something is written on both sides of the border (`shown_append`):

    * `shown_append_feed` — parts on different lines;
    * `exists_shown_append_blanks` — blanks between two parts stay blanks;
    * `ink_shown` — only blanks are lost.
-/
import TexMark.Proofs.Delimiter.Formula
import TexMark.Proofs.Rows.Reflow

namespace TexMark

namespace Text

variable {t u v w : Text}

/-! ### Texts that are written up to their margins -/

/-- The text begins with something other than a blank. -/
def BeginsWritten (t : Text) : Prop := ∃ c, t.head? = some c ∧ ¬ isBlank c

/-- The text ends with something other than a blank. -/
def EndsWritten (t : Text) : Prop := ∃ c, t.getLast? = some c ∧ ¬ isBlank c

theorem BeginsWritten.exists_cons (h : BeginsWritten t) : ∃ c s, t = c :: s ∧ ¬ isBlank c := by
  obtain ⟨c, hhead, hc⟩ := h
  exact ⟨c, t.tail, List.eq_cons_of_mem_head? hhead, hc⟩

theorem EndsWritten.exists_concat (h : EndsWritten t) : ∃ s c, t = s ++ [c] ∧ ¬ isBlank c := by
  obtain ⟨c, hlast, hc⟩ := h
  exact ⟨t.dropLast, c, (List.dropLast_append_getLast? c hlast).symm, hc⟩

theorem BeginsWritten.append (h : BeginsWritten u) (v : Text) : BeginsWritten (u ++ v) := by
  obtain ⟨c, s, rfl, hc⟩ := h.exists_cons
  exact ⟨c, rfl, hc⟩

theorem EndsWritten.append (h : EndsWritten v) (u : Text) : EndsWritten (u ++ v) := by
  obtain ⟨s, c, rfl, hc⟩ := h.exists_concat
  exact ⟨c, by rw [← List.append_assoc, List.getLast?_concat], hc⟩

theorem strip_eq_stripEnd (t : Text) : strip t = stripEnd (skipBlanks t) := rfl

theorem BeginsWritten.skipBlanks_eq (h : BeginsWritten t) : skipBlanks t = t := by
  obtain ⟨c, s, rfl, hc⟩ := h.exists_cons
  exact List.dropWhile_cons_of_neg hc

theorem EndsWritten.stripEnd_append (h : EndsWritten u) (v : Text) :
    stripEnd (u ++ v) = u ++ stripEnd v := by
  obtain ⟨s, c, rfl, hc⟩ := h.exists_concat
  rw [List.append_assoc, List.singleton_append, stripEnd_append_cons s hc, List.append_assoc]
  rfl

theorem EndsWritten.stripEnd_eq (h : EndsWritten t) : stripEnd t = t := by
  have := h.stripEnd_append []
  rwa [List.append_nil, show stripEnd [] = [] from rfl, List.append_nil] at this

/-- Blanks are dropped at the beginning only as far as something is written. -/
theorem EndsWritten.exists_skipBlanks (h : EndsWritten u) :
    EndsWritten (skipBlanks u) ∧ ∀ v, skipBlanks (u ++ v) = skipBlanks u ++ v := by
  obtain ⟨s, c, rfl, hc⟩ := h.exists_concat
  have hdrop (v : Text) : skipBlanks (s ++ c :: v) = skipBlanks s ++ c :: v := by
    rw [skipBlanks, List.dropWhile_append, List.dropWhile_cons_of_neg hc]
    split
    · rename_i hblank
      rw [skipBlanks, List.isEmpty_iff.mp hblank]
      rfl
    · rfl
  refine ⟨⟨c, by rw [hdrop, List.getLast?_concat], hc⟩, fun v => ?_⟩
  rw [List.append_assoc, List.singleton_append, hdrop, hdrop, List.append_assoc]
  rfl

theorem strip_cons {c : Char} (hc : ¬ isBlank c) (s : Text) : strip (c :: s) = c :: stripEnd s := by
  rw [strip_eq_stripEnd, skipBlanks, List.dropWhile_cons_of_neg hc]
  exact stripEnd_append_cons [] hc s

/-- What stands between two texts that are written up to it is not trimmed. -/
theorem strip_append (hu : EndsWritten u) (hv : BeginsWritten v) (w : Text) :
    strip (u ++ (w ++ v)) = strip u ++ (w ++ strip v) := by
  obtain ⟨hend, hskip⟩ := hu.exists_skipBlanks
  obtain ⟨c, s, rfl, hc⟩ := hv.exists_cons
  rw [strip_cons hc, strip_eq_stripEnd, hskip, hend.stripEnd_append, stripEnd_append_cons w hc,
    strip_eq_stripEnd u, hend.stripEnd_eq]

theorem EndsWritten.strip_ne_nil (h : EndsWritten t) : strip t ≠ [] := by
  obtain ⟨hend, -⟩ := h.exists_skipBlanks
  obtain ⟨s, c, hs, -⟩ := hend.exists_concat
  rw [strip_eq_stripEnd, hend.stripEnd_eq, hs]
  simp

theorem BeginsWritten.strip_ne_nil (h : BeginsWritten t) : strip t ≠ [] := by
  obtain ⟨c, s, rfl, hc⟩ := h.exists_cons
  rw [strip_cons hc]
  exact List.cons_ne_nil c _

/-! ### Lines of written texts -/

theorem not_mem_singleton_of_not_isBlank {c : Char} (hc : ¬ isBlank c) : '\n' ∉ [c] := by
  intro hmem
  rw [← List.mem_singleton.mp hmem] at hc
  exact hc rfl

theorem BeginsWritten.exists_lines (h : BeginsWritten v) :
    ∃ f fs, lines v = f :: fs ∧ BeginsWritten f := by
  obtain ⟨c, s, rfl, hc⟩ := h.exists_cons
  obtain ⟨f, fs, hlines⟩ := List.exists_cons_of_ne_nil (splitOn_ne_nil '\n' s)
  have hfeed : '\n' ∉ [c] := not_mem_singleton_of_not_isBlank hc
  exact ⟨c :: f, fs, lines_append_left hfeed hlines, c, rfl, hc⟩

theorem EndsWritten.lastLine (h : EndsWritten u) : EndsWritten (lastLine u) := by
  obtain ⟨s, c, rfl, hc⟩ := h.exists_concat
  have hfeed : '\n' ∉ [c] := not_mem_singleton_of_not_isBlank hc
  rw [lastLine_append_of_not_mem s hfeed]
  exact EndsWritten.append ⟨c, rfl, hc⟩ (Text.lastLine s)

/-- Lines put together on both sides of a border. -/
theorem unlines_border (ls fs : List Text) (x w y : Text) :
    unlines (ls ++ (x ++ (w ++ y)) :: fs) = unlines (ls ++ [x]) ++ (w ++ unlines (y :: fs)) := by
  cases ls with
  | nil => simp [unlines_cons]
  | cons l ls => simp [unlines_cons]

theorem unlines_append {ls fs : List Text} (hls : ls ≠ []) (hfs : fs ≠ []) :
    unlines (ls ++ fs) = unlines ls ++ '\n' :: unlines fs := by
  obtain ⟨l, ls, rfl⟩ := List.exists_cons_of_ne_nil hls
  obtain ⟨f, fs, rfl⟩ := List.exists_cons_of_ne_nil hfs
  simp [unlines_cons]

end Text

namespace Delimiter

open Text (BeginsWritten EndsWritten isBlank lastLine strip)

variable {t u v w : Text}

/-! ### Formulas line by line -/

/-- What stands between the markers of a display formula outside quotations. -/
def shown (content : Text) : Text := Text.unlines (bodyLines [] content)

theorem bodyLines_nil (t : Text) :
    bodyLines [] t = ((Text.lines t).map strip).filter fun l => !l.isEmpty := rfl

theorem bodyLines_append_feed (u v : Text) :
    bodyLines [] (u ++ '\n' :: v) = bodyLines [] u ++ bodyLines [] v := by
  rw [bodyLines_nil, Text.lines_append_feed, List.map_append, List.filter_append]
  rfl

/-- The last line of a part is shown if something is written on it. -/
theorem exists_bodyLines (hu : EndsWritten u) : ∃ ls, bodyLines [] u = ls ++ [strip (lastLine u)] ∧
    ∀ w v, BeginsWritten v → '\n' ∉ w → ∃ f fs, bodyLines [] v = f :: fs ∧
      bodyLines [] (u ++ (w ++ v)) = ls ++ (strip (lastLine u) ++ (w ++ f)) :: fs := by
  obtain ⟨ls, hlines, hboth⟩ := Text.exists_lines u
  refine ⟨(ls.map strip).filter fun l => !l.isEmpty, ?_, fun w v hv hw => ?_⟩
  · rw [bodyLines_nil, hlines]
    simp [hu.lastLine.strip_ne_nil]
  · obtain ⟨f, fs, hright, hf⟩ := hv.exists_lines
    have hborder := Text.strip_append hu.lastLine hf w
    refine ⟨strip f, (fs.map strip).filter fun l => !l.isEmpty, ?_, ?_⟩
    · rw [bodyLines_nil, hright]
      simp [hf.strip_ne_nil]
    · rw [bodyLines_nil, hboth _ _ _ (Text.lines_append_left hw hright)]
      simp [hborder, hf.strip_ne_nil]

/-- **Two parts of a line** are shown side by side. -/
theorem shown_append (hu : EndsWritten u) (hv : BeginsWritten v) (hw : '\n' ∉ w) :
    shown (u ++ (w ++ v)) = shown u ++ (w ++ shown v) := by
  obtain ⟨ls, hleft, hboth⟩ := exists_bodyLines hu
  obtain ⟨f, fs, hright, heq⟩ := hboth w v hv hw
  rw [shown, shown, shown, heq, hleft, hright, Text.unlines_border]

theorem bodyLines_ne_nil (ht : EndsWritten t) : bodyLines [] t ≠ [] := by
  obtain ⟨ls, hls, -⟩ := exists_bodyLines ht
  rw [hls]
  exact List.append_ne_nil_of_right_ne_nil ls (List.cons_ne_nil _ _)

/-- **Parts on different lines** are shown on different lines. -/
theorem shown_append_feed (hu : EndsWritten u) (hv : EndsWritten v) :
    shown (u ++ '\n' :: v) = shown u ++ '\n' :: shown v := by
  rw [shown, bodyLines_append_feed]
  exact Text.unlines_append (bodyLines_ne_nil hu) (bodyLines_ne_nil hv)

theorem bodyLines_blanks_append (hw : ∀ c ∈ w, isBlank c) (t : Text) :
    bodyLines [] (w ++ t) = bodyLines [] t := by
  induction w with
  | nil => rfl
  | cons c w ih =>
    rw [List.forall_mem_cons] at hw
    rw [← ih hw.2, List.cons_append]
    by_cases hc : c = '\n'
    · rw [hc]
      exact bodyLines_append_feed [] (w ++ t)
    · obtain ⟨l, ls, hlines⟩ := List.exists_cons_of_ne_nil (Text.splitOn_ne_nil '\n' (w ++ t))
      have hfeed : '\n' ∉ [c] := by simpa using Ne.symm hc
      have hcons : Text.lines (c :: (w ++ t)) = (c :: l) :: ls :=
        Text.lines_append_left hfeed hlines
      have hstrip : strip (c :: l) = strip l := by
        rw [Text.strip_eq, List.dropWhile_cons_of_pos hw.1, Text.strip_eq]
      rw [bodyLines_nil, bodyLines_nil, hcons, show Text.lines (w ++ t) = l :: ls from hlines,
        List.map_cons, List.map_cons, hstrip]

theorem bodyLines_append_blanks (hw : ∀ c ∈ w, isBlank c) (t : Text) :
    bodyLines [] (t ++ w) = bodyLines [] t := by
  have hnone {w : Text} (hw : ∀ c ∈ w, isBlank c) : bodyLines [] w = [] := by
    rw [← List.append_nil w, bodyLines_blanks_append hw]
    rfl
  have hline {a : Text} (ha : ∀ c ∈ a, isBlank c) (hfeed : '\n' ∉ a) :
      bodyLines [] (t ++ a) = bodyLines [] t := by
    obtain ⟨ls, hlines, hboth⟩ := Text.exists_lines t
    rw [bodyLines_nil, bodyLines_nil, hboth a a [] (Text.lines_of_not_mem hfeed), hlines,
      List.map_append, List.map_append, List.map_singleton, List.map_singleton,
      Text.strip_append_blank ha]
  by_cases hfeed : '\n' ∈ w
  · obtain ⟨a, b, rfl, ha⟩ := List.eq_append_cons_of_mem hfeed
    rw [List.forall_mem_append, List.forall_mem_cons] at hw
    rw [← List.append_assoc, bodyLines_append_feed, hline hw.1 ha, hnone hw.2.2, List.append_nil]
  · exact hline hw hfeed

/-- **Blanks between two parts** are shown as blanks. -/
theorem exists_shown_append_blanks (hu : EndsWritten u) (hv : BeginsWritten v)
    (hw : ∀ c ∈ w, isBlank c) :
    ∃ w', (∀ c ∈ w', isBlank c) ∧ shown (u ++ (w ++ v)) = shown u ++ (w' ++ shown v) := by
  by_cases hfeed : '\n' ∈ w
  · obtain ⟨a, b, rfl, -⟩ := List.eq_append_cons_of_mem hfeed
    rw [List.forall_mem_append, List.forall_mem_cons] at hw
    obtain ⟨f, fs, hlines, -⟩ := (exists_bodyLines hu).choose_spec.2 [] v hv nofun
    have hparts : bodyLines [] (u ++ (a ++ '\n' :: b ++ v)) = bodyLines [] u ++ bodyLines [] v := by
      rw [List.append_assoc, List.cons_append, ← List.append_assoc, bodyLines_append_feed,
        bodyLines_append_blanks hw.1, bodyLines_blanks_append hw.2.2]
    refine ⟨['\n'], List.forall_mem_singleton.mpr (by decide), ?_⟩
    rw [shown, hparts]
    exact Text.unlines_append (bodyLines_ne_nil hu) (by simp [hlines])
  · exact ⟨w, hw, shown_append hu hv hfeed⟩

/-- A line without margins is shown as it is. -/
theorem shown_eq_self (hbegins : BeginsWritten t) (hends : EndsWritten t) (hfeed : '\n' ∉ t) :
    shown t = t := by
  have hstrip : strip t = t := by
    rw [Text.strip_eq_stripEnd, hbegins.skipBlanks_eq, hends.stripEnd_eq]
  have hne : t ≠ [] := by
    rintro rfl
    obtain ⟨c, hc, -⟩ := hbegins
    cases hc
  rw [shown, bodyLines_nil, Text.lines_of_not_mem hfeed, List.map_singleton, hstrip]
  simp [hne, Text.unlines_cons]

/-- What is written first is shown first. -/
theorem shown_isPrefix (hu : EndsWritten u) (v : Text) : shown u <+: shown (u ++ v) := by
  have hw : ∀ c ∈ v.takeWhile isBlank, isBlank c := fun c hc => List.mem_takeWhile_imp hc
  rw [← List.takeWhile_append_dropWhile (p := isBlank) (l := v)]
  by_cases hnil : v.dropWhile isBlank = []
  · rw [hnil, List.append_nil, shown, shown, bodyLines_append_blanks hw]
  · have hv : BeginsWritten (v.dropWhile isBlank) :=
      ⟨_, List.head?_eq_some_head hnil, by simpa using List.head_dropWhile_not isBlank hnil⟩
    obtain ⟨w', -, heq⟩ := exists_shown_append_blanks hu hv hw
    rw [heq]
    exact List.prefix_append _ _

/-- What is written last is shown last. -/
theorem shown_isSuffix (hv : BeginsWritten v) (u : Text) : shown v <:+ shown (u ++ v) := by
  have hw : ∀ c ∈ u.rtakeWhile isBlank, isBlank c := fun c hc => List.mem_rtakeWhile_imp hc
  rw [← List.rdropWhile_append_rtakeWhile (p := isBlank) (l := u), List.append_assoc]
  by_cases hnil : u.rdropWhile isBlank = []
  · rw [hnil, List.nil_append, shown, shown, bodyLines_blanks_append hw]
  · have hu : EndsWritten (u.rdropWhile isBlank) :=
      ⟨_, List.getLast?_eq_some_getLast hnil, List.rdropWhile_last_not isBlank u hnil⟩
    obtain ⟨w', -, heq⟩ := exists_shown_append_blanks hu hv hw
    rw [heq, ← List.append_assoc]
    exact List.suffix_append _ _

/-! ### What is lost -/

open Rows (ink ink_append ink_strip)

theorem ink_unlines (ls : List Text) : ink (Text.unlines ls) = ls.flatMap ink := by
  cases ls with
  | nil => rfl
  | cons l ls =>
    rw [Text.unlines_cons, ink_append, List.flatMap_cons]
    exact congrArg (ink l ++ ·) List.filter_flatMap

/-- **Only blanks are lost** where a formula is shown. -/
theorem ink_shown (t : Text) : ink (shown t) = ink t := by
  have hkept (ls : List Text) : (ls.filter fun l => !l.isEmpty).flatMap ink = ls.flatMap ink := by
    induction ls with
    | nil => rfl
    | cons l ls ih => cases l <;> simp_all [ink]
  have hstrip : ((Text.lines t).map strip).flatMap ink = (Text.lines t).flatMap ink := by
    rw [List.flatMap_map]
    exact List.flatMap_congr fun l _ => ink_strip l
  rw [shown, ink_unlines, bodyLines_nil, hkept, hstrip, ← ink_unlines]
  exact congrArg ink (Text.join_splitOn '\n' t)

theorem display_lines (t : Text) :
    display t = Text.unlines (["$$".toList] ++ (bodyLines [] t ++ ["$$".toList])) := by
  change Text.unlines ("$$".toList :: ((bodyLines [] t).map ([] ++ ·) ++ [[] ++ "$$".toList])) = _
  rw [List.map_congr_left fun l _ => List.nil_append l, List.map_id']
  rfl

/-- A display formula outside quotations stands on lines of its own between its markers. -/
theorem display_eq (ht : EndsWritten t) : display t = "$$\n" ++ (shown t ++ "\n$$") := by
  rw [display_lines, Text.unlines_append (by simp) (by simp),
    Text.unlines_append (bodyLines_ne_nil ht) (by simp)]
  rfl

end Delimiter

end TexMark
