/-
  TexMark/Proofs/Environment/RowSpacing.lean
  ==========================================
  **Spacing arguments in converted rows.**  A spacing argument at the head of a row is handed back
  to the separator before the row when the rows are joined (`join_append_cons`), and a display
  formula shows it there (`display_wrapped`).  Merged columns do not stand in the way
  (`spacing?_merged`), but an indentation does: the row no longer begins with its argument
  (`join_indentedRows`).

    * `spacing_of_conversion` — what the four converters of rows do with the argument.
-/
import TexMark.Environment.Frame
import TexMark.Proofs.Delimiter.Display
import TexMark.Proofs.Theorem.Headings

namespace TexMark.Environment

open Delimiter (shown)
open Rows (IsSpacing continued spacing? spacing?_eq_some_iff isBlank_eq_false isLengthDigit)
open Text (BeginsWritten EndsWritten isBlank strip)

variable {s rest row content : Text} {before after rows : List Text}

/-! ### Spacing arguments -/

theorem beginsWritten_spacing (hs : IsSpacing s) : BeginsWritten s := by
  obtain ⟨inner, rfl⟩ := hs.exists_eq
  exact ⟨'[', rfl, by decide⟩

theorem endsWritten_spacing (hs : IsSpacing s) : EndsWritten s := by
  obtain ⟨inner, rfl⟩ := hs.exists_eq
  rw [← List.cons_append]
  exact EndsWritten.append ⟨']', rfl, by decide⟩ ('[' :: inner)

theorem not_mem_spacing (hs : IsSpacing s) : '&' ∉ s := by
  have hclass (among : Char → Bool) (hamong : among '&' = false) {u : Text}
      (hu : ∀ c ∈ u, among c) : '&' ∉ u := by
    intro hmem
    rw [hu _ hmem] at hamong
    cases hamong
  cases hs with
  | @intro before sign number between after a b hbefore hsign hnumber hne hbetween ha hb hafter =>
    have hsign' : '&' ∉ sign := by rcases hsign with rfl | rfl <;> decide
    have hunit : '&' ∉ [a, b] := hclass Text.isAsciiLower (by decide) (by simp [ha, hb])
    have hblank {u : Text} (hu : ∀ c ∈ u, isBlank c) : '&' ∉ u := hclass isBlank (by decide) hu
    have hdigit : '&' ∉ number := hclass isLengthDigit (by decide) hnumber
    simp_all

/-- A word in front of blanks and of more that is written. -/
theorem exists_shown_word {u v w : Text} (hne : u ≠ []) (hu : ∀ c ∈ u, ¬ isBlank c)
    (hw : ∀ c ∈ w, isBlank c) (hv : BeginsWritten v) :
    ∃ w', (∀ c ∈ w', isBlank c) ∧ shown (u ++ (w ++ v)) = u ++ (w' ++ shown v) := by
  have hbegins : BeginsWritten u :=
    ⟨u.head hne, List.head?_eq_some_head hne, hu _ (List.head_mem hne)⟩
  have hends : EndsWritten u :=
    ⟨u.getLast hne, List.getLast?_eq_some_getLast hne, hu _ (List.getLast_mem hne)⟩
  obtain ⟨w', hw', heq⟩ := Delimiter.exists_shown_append_blanks hends hv hw
  have hword : shown u = u :=
    Delimiter.shown_eq_self hbegins hends fun hfeed => hu _ hfeed (by decide)
  exact ⟨w', hw', by rw [heq, hword]⟩

/-- A spacing argument is shown as one. -/
theorem isSpacing_shown (hs : IsSpacing s) : IsSpacing (shown s) := by
  cases hs with
  | @intro before sign number between after a b hbefore hsign hnumber hne hbetween ha hb hafter =>
    have hlower {c : Char} (hc : Text.isAsciiLower c) : ¬ isBlank c := by
      simp [isBlank_eq_false Text.isAsciiLower (by decide) hc]
    have hamount : ∀ c ∈ sign ++ number, ¬ isBlank c := by
      intro c hc
      rcases List.mem_append.mp hc with hc | hc
      · rcases hsign with rfl | rfl
        · cases hc
        · rw [List.mem_singleton.mp hc]
          decide
      · simp [isBlank_eq_false isLengthDigit (by decide +kernel) (hnumber c hc)]
    have hsome : sign ++ number ≠ [] := List.append_ne_nil_of_right_ne_nil sign hne
    have hunit : BeginsWritten ([a, b] ++ (after ++ [']'])) := ⟨a, rfl, hlower ha⟩
    have hrest : BeginsWritten (sign ++ number ++ (between ++ ([a, b] ++ (after ++ [']'])))) := by
      refine BeginsWritten.append ⟨(sign ++ number).head hsome, List.head?_eq_some_head hsome, ?_⟩ _
      exact hamount _ (List.head_mem hsome)
    -- the words of the argument, with the blanks between them
    obtain ⟨before', hbefore', hfirst⟩ :=
      exists_shown_word (u := ['[']) (by simp)
        (List.forall_mem_singleton.mpr (by decide)) hbefore hrest
    obtain ⟨between', hbetween', hsecond⟩ := exists_shown_word hsome hamount hbetween hunit
    have hletters : ∀ c ∈ [a, b], ¬ isBlank c := by
      simp only [List.forall_mem_cons]
      exact ⟨hlower ha, hlower hb, nofun⟩
    obtain ⟨after', hafter', hthird⟩ :=
      exists_shown_word (v := [']']) (by simp) hletters hafter ⟨']', rfl, by decide⟩
    have hlast : shown [']'] = [']'] := rfl
    rw [hsecond, hthird, hlast] at hfirst
    simp only [List.cons_append, List.nil_append, List.append_assoc] at hfirst
    rw [hfirst]
    exact .intro hbefore' hsign hnumber hne hbetween' ha hb hafter'

/-- How a display formula shows a spacing argument: on one line it is left as it is. -/
theorem shown_spacing (hs : IsSpacing s) (hfeed : '\n' ∉ s) : shown s = s :=
  Delimiter.shown_eq_self (beginsWritten_spacing hs) (endsWritten_spacing hs) hfeed

/-! ### Rows -/

/-- A row as it is joined with the others: of the old form of columns two are made one. -/
def merged (frame : Frame) (row : Text) : Text :=
  if legacyNames.contains frame.name then mergeColumns row else row

theorem alignedRows_eq (frame : Frame) (content : Text) :
    alignedRows frame content = (Rows.split content).map (merged frame) := by
  unfold alignedRows merged
  split
  · rfl
  · exact (List.map_id' _).symm

theorem mergeColumns_append {u : Text} (hu : '&' ∉ u) (row : Text) :
    mergeColumns (u ++ row) = u ++ mergeColumns row := by
  induction u with
  | nil => rfl
  | cons c u ih =>
    rw [List.mem_cons, not_or] at hu
    rw [List.cons_append, mergeColumns, if_neg (Ne.symm hu.1), ih hu.2, List.cons_append]

/-- **Merged columns** do not touch the spacing argument of a row. -/
theorem spacing?_merged (frame : Frame) (h : spacing? row = some (s, rest)) :
    spacing? (merged frame row) = some (s, merged frame rest) := by
  obtain ⟨hs, rfl⟩ := spacing?_eq_some_iff.mp h
  unfold merged
  split
  · rw [mergeColumns_append (not_mem_spacing hs)]
    exact spacing?_eq_some_iff.mpr ⟨hs, rfl⟩
  · exact h

theorem join_append (hbefore : before ≠ []) (rows : List Text) :
    Rows.join (before ++ rows) = Rows.join before ++ rows.flatMap continued := by
  obtain ⟨first, more, rfl⟩ := List.exists_cons_of_ne_nil hbefore
  rw [List.cons_append, Rows.join, List.flatMap_append, ← List.append_assoc]
  rfl

/-- **Joining hands the spacing argument back** to the separator before its row. -/
theorem join_append_cons (hbefore : before ≠ []) (h : spacing? row = some (s, rest))
    (after : List Text) : Rows.join (before ++ row :: after) =
      Rows.join before ++ " \\\\" ++ (s ++ '\n' :: Rows.join (strip rest :: after)) := by
  rw [join_append hbefore, List.flatMap_cons, continued, h, Rows.join]
  simp

/-- What stands in front of a row of a broken formula. -/
def indentation (size i : Nat) : Text :=
  if i = 0 then "& " else if i + 1 = size then "& \\qquad " else "& \\quad "

theorem indentation_cases (size i : Nat) :
    ∃ word, EndsWritten word ∧ BeginsWritten word ∧ indentation size i = word ++ [' '] ∧
      '\n' ∉ word := by
  unfold indentation
  split
  · exact ⟨"&", ⟨'&', rfl, by decide⟩, ⟨'&', rfl, by decide⟩, rfl, by decide⟩
  · split
    · exact ⟨"& \\qquad", ⟨'d', rfl, by decide⟩, ⟨'&', rfl, by decide⟩, rfl, by decide⟩
    · exact ⟨"& \\quad", ⟨'d', rfl, by decide⟩, ⟨'&', rfl, by decide⟩, rfl, by decide⟩

theorem indentedRows_eq (rows : List Text) :
    indentedRows rows = rows.mapIdx fun i row => indentation rows.length i ++ row := by
  refine List.mapIdx_eq_mapIdx_iff.mpr fun i hi => ?_
  unfold indentation
  split
  · rfl
  · split <;> rfl

theorem spacing?_indented (size i : Nat) (row : Text) :
    spacing? (indentation size i ++ row) = none := by
  unfold indentation
  split
  · rfl
  · split <;> rfl

/-- Indented, a row does not begin with its spacing argument any more. -/
theorem join_indentedRows (hbefore : before ≠ []) (row : Text) (after : List Text) :
    let rows := indentedRows (before ++ row :: after)
    ∃ more, Rows.join rows = Rows.join (rows.take before.length) ++ " \\\\" ++
      '\n' :: (indentation rows.length before.length ++ (row ++ more)) := by
  intro rows
  generalize hsize : (before ++ row :: after).length = size
  have hrows : rows = (before ++ row :: after).mapIdx fun i row => indentation size i ++ row := by
    rw [← hsize]
    exact indentedRows_eq _
  have hlength : rows.length = size := by rw [hrows, List.length_mapIdx, hsize]
  have hfront : (before.mapIdx fun i row => indentation size i ++ row).length = before.length :=
    List.length_mapIdx
  have hne : (before.mapIdx fun i row => indentation size i ++ row) ≠ [] := by simpa using hbefore
  rw [hlength, hrows, List.mapIdx_append, List.mapIdx_cons, List.take_left' hfront,
    join_append hne, List.flatMap_cons, Nat.zero_add, continued, spacing?_indented]
  exact ⟨_, by simp only [List.append_assoc, List.cons_append]; rfl⟩

/-! ### Formulas of rows -/

/-- A formula of rows as it is shown up to the separator behind some of them. -/
def opened (name : Text) (before : List Text) : Text :=
  "$$\n" ++ shown (Markup.beginMarker name ++ '\n' :: Rows.join before ++ " \\\\")

/-- A formula of rows as it is shown behind a separator. -/
def closed (name : Text) (after : List Text) : Text :=
  shown (Rows.join after ++ '\n' :: Markup.endMarker name) ++ "\n$$"

/-- Such a beginning ends with its separator. -/
theorem separator_isSuffix (name : Text) (before : List Text) :
    "\\\\".toList <:+ opened name before := by
  have hlast := Delimiter.shown_isSuffix (v := "\\\\") ⟨'\\', rfl, by decide⟩
    (Markup.beginMarker name ++ '\n' :: Rows.join before ++ [' '])
  have hshown : shown "\\\\" = "\\\\" := rfl
  rw [hshown, List.append_assoc] at hlast
  rw [opened]
  exact hlast.trans (List.suffix_append _ _)

theorem endsWritten_separator (u : Text) : EndsWritten (u ++ " \\\\") :=
  EndsWritten.append ⟨'\\', rfl, by decide⟩ u

theorem endsWritten_braced (u t : Text) : EndsWritten (u ++ Text.braced t) := by
  rw [Text.braced, ← List.cons_append]
  exact EndsWritten.append (EndsWritten.append ⟨'}', rfl, by decide⟩ _) u

theorem endsWritten_endMarker (name : Text) : EndsWritten (Markup.endMarker name) :=
  endsWritten_braced _ _

theorem endsWritten_wrapped (name argument body : Text) :
    EndsWritten (wrapped name argument body) := by
  rw [wrapped, ← List.singleton_append (l := Markup.endMarker name), ← List.append_assoc]
  exact (endsWritten_endMarker name).append _

/-- **A spacing argument behind its separator** is shown there. -/
theorem display_wrapped (hs : IsSpacing s) (name : Text) (before after : List Text) :
    Delimiter.display (wrapped name []
        (Rows.join before ++ " \\\\" ++ (s ++ '\n' :: Rows.join after))) =
      opened name before ++ (shown s ++ '\n' :: closed name after) := by
  have hfront : EndsWritten (Markup.beginMarker name ++ '\n' :: Rows.join before ++ " \\\\") :=
    endsWritten_separator _
  have hback : EndsWritten (Rows.join after ++ '\n' :: Markup.endMarker name) := by
    rw [Markup.endMarker, ← List.cons_append, ← List.append_assoc]
    exact endsWritten_braced _ _
  have hall := Delimiter.shown_append hfront ((beginsWritten_spacing hs).append
    ('\n' :: (Rows.join after ++ '\n' :: Markup.endMarker name))) (w := []) nofun
  rw [Delimiter.shown_append_feed (endsWritten_spacing hs) hback] at hall
  rw [Delimiter.display_eq (endsWritten_wrapped name [] _), opened, closed]
  simp only [wrapped, List.append_assoc, List.cons_append, List.nil_append,
    List.append_nil] at hall ⊢
  rw [hall]
  simp

/-- What stands behind an indentation is shown behind it. -/
theorem exists_shown_indented (hs : IsSpacing s) (size i : Nat) (row : Text) :
    ∃ back, shown (indentation size i ++ (s ++ row)) = indentation size i ++ (shown s ++ back) := by
  obtain ⟨word, hends, hbegins, hword, hfeed⟩ := indentation_cases size i
  obtain ⟨back, hback⟩ := Delimiter.shown_isPrefix (endsWritten_spacing hs) row
  have hline := Delimiter.shown_append hends ((beginsWritten_spacing hs).append row)
    (w := [' ']) (by decide)
  rw [Delimiter.shown_eq_self hbegins hends hfeed, ← hback] at hline
  refine ⟨back, ?_⟩
  rw [hword, List.append_assoc, hline, List.append_assoc]

/-- **A spacing argument behind an indentation** is shown behind it. -/
theorem exists_display_indented (hs : IsSpacing s) (name : Text) (before : List Text)
    (size i : Nat) (row : Text) {t : Text} (ht : EndsWritten (Markup.endMarker name ++ t)) :
    ∃ back, Delimiter.display (wrapped name [] (Rows.join before ++ " \\\\" ++
        '\n' :: (indentation size i ++ (s ++ row))) ++ t) =
      opened name before ++ '\n' :: (indentation size i ++ (shown s ++ back)) := by
  have hfront : EndsWritten (Markup.beginMarker name ++ '\n' :: Rows.join before ++ " \\\\") :=
    endsWritten_separator _
  -- the formula from the indentation on
  generalize hmore : row ++ '\n' :: Markup.endMarker name ++ t = more
  have hbehind : EndsWritten (indentation size i ++ (s ++ more)) := by
    have := ht.append (indentation size i ++ s ++ row ++ ['\n'])
    simpa [← hmore] using this
  have hparts : wrapped name [] (Rows.join before ++ " \\\\" ++
      '\n' :: (indentation size i ++ (s ++ row))) ++ t =
        Markup.beginMarker name ++ '\n' :: Rows.join before ++ " \\\\" ++
          '\n' :: (indentation size i ++ (s ++ more)) := by
    simp [wrapped, ← hmore]
  have hends : EndsWritten (Markup.beginMarker name ++ '\n' :: Rows.join before ++ " \\\\" ++
      '\n' :: (indentation size i ++ (s ++ more))) := by
    rw [← List.singleton_append (l := indentation size i ++ _), ← List.append_assoc]
    exact hbehind.append _
  obtain ⟨back, hback⟩ := exists_shown_indented hs size i more
  refine ⟨back ++ "\n$$", ?_⟩
  rw [hparts, Delimiter.display_eq hends, Delimiter.shown_append_feed hfront hbehind, hback, opened]
  simp

/-! ### Conversions -/

theorem exists_withTag (settings : Settings) (frame : Frame) (body : Text) (equations : Nat) :
    ∃ tag n, withTag settings frame body equations = (body ++ tag, n) ∧
      EndsWritten (Markup.endMarker "aligned" ++ tag) := by
  unfold withTag
  split
  · refine ⟨_, _, by rw [List.append_assoc], ?_⟩
    rw [← List.append_assoc]
    exact endsWritten_braced _ _
  · refine ⟨[], _, by rw [List.append_nil], ?_⟩
    rw [List.append_nil]
    exact endsWritten_endMarker _

/-- **Spacing arguments of rows.**  An argument at the head of a row behind the first one is shown
    directly behind the separator before it by three of the four converters of rows.  Where rows
    are indented, the indentation has come between the two. -/
theorem spacing_of_conversion (settings : Settings) (frame : Frame) (equations : Nat)
    (hsplit : Rows.split content = before ++ row :: after) (hbefore : before ≠ [])
    (hspacing : spacing? row = some (s, rest)) :
    (IsSpacing (shown s) ∧ Rows.ink (shown s) = Rows.ink s ∧ ('\n' ∉ s → shown s = s)) ∧
    (∀ name rows, "\\\\".toList <:+ opened name rows) ∧
    Converter.inner.apply settings frame content equations =
      pure (wrapped frame.name ((frame.argument?.map Text.braced).getD [])
        (Rows.join before ++ " \\\\" ++ (s ++ '\n' :: Rows.join (strip rest :: after))),
        equations) ∧
    Converter.aligned.apply settings frame content equations =
      pure (opened "aligned" (before.map (merged frame)) ++ (shown s ++ '\n' ::
        closed "aligned" (strip (merged frame rest) :: after.map (merged frame))), equations) ∧
    Converter.gather.apply settings frame content equations =
      pure (opened "gathered" before ++ (shown s ++ '\n' ::
        closed "gathered" (strip rest :: after)), equations) ∧
    let rows := indentedRows (Rows.split content)
    ∃ back n, Converter.multline.apply settings frame content equations =
      pure (opened "aligned" (rows.take before.length) ++ '\n' ::
        (indentation rows.length before.length ++ (shown s ++ back)), n) := by
  obtain ⟨hs, hrow⟩ := spacing?_eq_some_iff.mp hspacing
  have hjoin := join_append_cons hbefore hspacing after
  refine ⟨⟨isSpacing_shown hs, Delimiter.ink_shown s, shown_spacing hs⟩, separator_isSuffix, ?_, ?_,
    ?_, ?_⟩
  · rw [Converter.apply, Rows.reflow, hsplit, hjoin]
    cases frame.argument? <;> rfl
  · have hmap : (before ++ row :: after).map (merged frame) =
        before.map (merged frame) ++ merged frame row :: after.map (merged frame) := by simp
    rw [Converter.apply, alignedRows_eq, hsplit, hmap,
      join_append_cons (by simpa using hbefore) (spacing?_merged frame hspacing),
      display_wrapped hs]
  · rw [Converter.apply, Rows.reflow, hsplit, hjoin, display_wrapped hs]
  · intro rows
    obtain ⟨more, hrows⟩ := join_indentedRows hbefore row after
    obtain ⟨tag, n, htag, hends⟩ := exists_withTag settings frame
      (wrapped "aligned" [] (Rows.join (indentedRows (Rows.split content)))) equations
    obtain ⟨back, hback⟩ := exists_display_indented hs "aligned" (rows.take before.length)
      rows.length before.length (rest ++ more) hends
    refine ⟨back, n, ?_⟩
    rw [Converter.apply, htag]
    dsimp only
    rw [← hback, hsplit, hrows, hrow, List.append_assoc s]
    simp only [rows, hsplit, hrow]

theorem spacing_of_conversion_eqnarray :
    let frame : Frame := ⟨"eqnarray", 0, 16, [], none, none, none, false⟩
    let content : Text := "a & = & b \\\\[2pt] c & = & d"
    Rows.split content = ["a & = & b".toList] ++ "[2pt] c & = & d".toList :: [] ∧
    spacing? "[2pt] c & = & d" = some ("[2pt]".toList, " c & = & d".toList) ∧
    Converter.aligned.apply numberingSettings frame content 0 =
      pure (("$$\n\\begin{aligned}\na &= b \\\\[2pt]\nc &= d\n" ++
        "\\end{aligned}\n$$").toList, 0) := by
  intro frame content
  have hsplit : Rows.split content = ["a & = & b".toList] ++ "[2pt] c & = & d".toList :: [] := by
    decide +kernel
  have hspacing : spacing? "[2pt] c & = & d" = some ("[2pt]".toList, " c & = & d".toList) := by
    decide +kernel
  refine ⟨hsplit, hspacing, ?_⟩
  have haligned :=
    (spacing_of_conversion numberingSettings frame 0 hsplit (by decide) hspacing).2.2.2.1
  refine haligned.trans (congrArg (fun t => pure (t, 0)) ?_)
  decide +kernel

def indentedDocument : Text := "\\begin{multline}a\\\\[2pt]b\\end{multline}"

/-- **An indentation** stands between a separator and its spacing argument. -/
theorem spacing_of_indented :
    let written : Text := "$$\n\\begin{aligned}\n& a \\\\\n& \\qquad [2pt]b\n" ++
      "\\end{aligned} \\tag{1}\n$$"
    Rows.split "a\\\\[2pt]b" = ["a".toList] ++ "[2pt]b".toList :: [] ∧
    spacing? "[2pt]b" = some ("[2pt]".toList, "b".toList) ∧
    (resolve numberingSettings .empty 0 indentedDocument).result = .ok ⟨written, .empty, 1⟩ ∧
    ¬ "\\\\[2pt]".toList <:+: written := by
  intro written
  refine ⟨by decide +kernel, by decide +kernel, ?_, by decide +kernel⟩
  rw [resolve_eq_run]
  rfl

end TexMark.Environment
