/-
  TexMark/Proofs/Theorem/Reading.lean
  ===================================
  **Callouts of a document, turned back.**  Reading goes from line to line.  A head takes the
  quoted lines behind it with it, and what they hold is read by itself; every other line stays.
  So a document is divided into lines and callouts, and the callouts inside these (`Divided`):

    * `exists_divided`, `Divided.unique` — each document in one way, however deep callouts stand
      in each other;
    * `toEnvironmentLines_append` — parts of a document are read by themselves unless a callout
      goes on across their border;
    * `Divided.paired` — without markup in the document, the lines written for its callouts are
      beginnings and ends in pairs.
-/
import TexMark.Proofs.Delimiter.Display
import TexMark.Proofs.Theorem.LeadIn

namespace TexMark.Callout

open Text (lines unlines strip isBlank BeginsWritten EndsWritten)

/-! ### Passages -/

/-- A document as **passages**: lines that stay, and callouts with what is inside them. -/
inductive Passages where
  | nil
  | line (l : Text) (rest : Passages)
  | callout (name title : Text) (inner rest : Passages)
deriving DecidableEq, Repr

/-- The line that begins the environment of a callout. -/
def openingLine (name title : Text) : Text :=
  Markup.beginMarker name ++
    if (strip title).isEmpty then [] else Text.bracketed (strip title)

namespace Passages

/-- The number of callouts, those inside other callouts among them. -/
def callouts : Passages → Nat
  | nil => 0
  | line _ rest => rest.callouts
  | callout _ _ inner rest => inner.callouts + rest.callouts + 1

/-- How deep callouts stand in each other. -/
def depth : Passages → Nat
  | nil => 0
  | line _ rest => rest.depth
  | callout _ _ inner rest => max (inner.depth + 1) rest.depth

/-- The passages with every callout as an environment.  What is inside a callout is one entry,
    trimmed, or none if nothing is written there. -/
def entries : Passages → List Text
  | nil => []
  | line l rest => l :: rest.entries
  | callout name title inner rest =>
    let content := strip (unlines inner.entries)
    openingLine name title :: ((if content.isEmpty then [] else [content]) ++
      Markup.endMarker name :: rest.entries)

/-- Passages one behind the other. -/
def append : Passages → Passages → Passages
  | nil, more => more
  | line l rest, more => line l (rest.append more)
  | callout name title inner rest, more => callout name title inner (rest.append more)

@[simp] theorem entries_append (p q : Passages) :
    (p.append q).entries = p.entries ++ q.entries := by
  induction p with
  | nil => rfl
  | line l rest ih => simp [append, entries, ih]
  | callout name title inner rest _ ih => simp [append, entries, ih]

end Passages

/-- Lines **divided** into passages.  The body of a callout, which is divided in turn, are all the
    quoted lines behind its head, without their markers and the lead-in. -/
inductive Divided : List Text → Passages → Prop where
  | nil : Divided [] .nil
  | line {l : Text} {ls : List Text} {rest : Passages} (hl : theoremHead? l = none)
    (hrest : Divided ls rest) : Divided (l :: ls) (.line l rest)
  | callout {head name title : Text} {quoted behind : List Text} {inner rest : Passages}
    (hhead : theoremHead? head = some (name, title)) (hquoted : ∀ q ∈ quoted, isQuoted q)
    (hbehind : ∀ l ∈ behind.head?, isQuoted l = false) (hinner : Divided (bodyOf quoted) inner)
    (hrest : Divided behind rest) :
    Divided (head :: (quoted ++ behind)) (.callout name title inner rest)

/-! ### The body of a callout -/

section

variable {quoted behind : List Text} (hquoted : ∀ q ∈ quoted, isQuoted q)
  (hbehind : ∀ l ∈ behind.head?, isQuoted l = false)
include hquoted hbehind

theorem takeWhile_isQuoted : (quoted ++ behind).takeWhile isQuoted = quoted := by
  have hstop : behind.takeWhile isQuoted = [] := by
    cases behind with
    | nil => rfl
    | cons l ls => exact List.takeWhile_cons_of_neg (by simp [hbehind l rfl])
  rw [List.takeWhile_append_of_pos hquoted, hstop, List.append_nil]

theorem dropWhile_isQuoted : (quoted ++ behind).dropWhile isQuoted = behind := by
  rw [List.dropWhile_append_of_pos hquoted]
  cases behind with
  | nil => rfl
  | cons l ls => exact List.dropWhile_cons_of_neg (by simp [hbehind l rfl])

theorem bodyOf_append : bodyOf (quoted ++ behind) = bodyOf quoted := by
  have hall : quoted.takeWhile isQuoted = quoted := List.takeWhile_eq_self_iff.mpr hquoted
  rw [bodyOf, bodyOf, takeWhile_isQuoted hquoted hbehind, hall]

end

/-- The quoted lines at the head of some lines. -/
theorem exists_quoted (ls : List Text) : ∃ quoted behind, ls = quoted ++ behind ∧
    (∀ q ∈ quoted, isQuoted q) ∧ ∀ l ∈ behind.head?, isQuoted l = false := by
  induction ls with
  | nil => exact ⟨[], [], rfl, nofun, nofun⟩
  | cons l ls ih =>
    by_cases hl : isQuoted l
    · obtain ⟨quoted, behind, rfl, hquoted, hbehind⟩ := ih
      exact ⟨l :: quoted, behind, rfl, List.forall_mem_cons.mpr ⟨hl, hquoted⟩, hbehind⟩
    · refine ⟨[], l :: ls, rfl, nofun, ?_⟩
      rintro _ ⟨⟩
      simpa using hl

theorem unquoted_suffix (q : Text) : unquoted q <:+ q := by
  unfold unquoted
  split
  · rename_i c rest
    exact (List.suffix_cons ' ' rest).trans (List.suffix_cons c _)
  · exact List.suffix_cons _ _
  · exact List.suffix_rfl

/-- A line of a body is the end of a quoted line. -/
theorem exists_of_mem_bodyOf {ls : List Text} {l : Text} (h : l ∈ bodyOf ls) :
    ∃ q ∈ ls, l <:+ q := by
  have hdropped : ∀ t : Text, dropLeadIn t <:+ t := by
    intro t
    unfold dropLeadIn
    split
    · rename_i number rest hlead
      obtain ⟨w, hw, -⟩ := takenFromLine_leadNumber? hlead
      exact (List.dropWhile_suffix _).trans ⟨w, hw.symm⟩
    · exact List.suffix_rfl
  have hall : ∀ x ∈ (ls.takeWhile isQuoted).map unquoted, ∃ q ∈ ls, x <:+ q := by
    intro x hx
    obtain ⟨q, hq, rfl⟩ := List.mem_map.mp hx
    exact ⟨q, (List.takeWhile_sublist _).subset hq, unquoted_suffix q⟩
  unfold bodyOf at h
  split at h
  · cases h
  · rename_i first rest hbody
    rw [hbody] at hall
    rcases List.mem_cons.mp h with rfl | h
    · obtain ⟨q, hq, hsuffix⟩ := hall first List.mem_cons_self
      exact ⟨q, hq, (hdropped first).trans hsuffix⟩
    · exact hall l (List.mem_cons_of_mem first h)

/-! ### Every document is divided in one way -/

theorem exists_divided (ls : List Text) : ∃ p, Divided ls p := by
  cases ls with
  | nil => exact ⟨.nil, .nil⟩
  | cons l ls =>
    cases hhead : theoremHead? l with
    | none =>
      obtain ⟨rest, hrest⟩ := exists_divided ls
      exact ⟨_, .line hhead hrest⟩
    | some found =>
      obtain ⟨name, title⟩ := found
      obtain ⟨quoted, behind, hls, hquoted, hbehind⟩ := exists_quoted ls
      have hshorter : (bodyOf quoted).length ≤ quoted.length := by
        rw [length_bodyOf]
        exact (List.takeWhile_sublist _).length_le
      obtain ⟨inner, hinner⟩ := exists_divided (bodyOf quoted)
      obtain ⟨rest, hrest⟩ := exists_divided behind
      refine ⟨.callout name title inner rest, ?_⟩
      rw [hls]
      exact .callout hhead hquoted hbehind hinner hrest
termination_by ls.length
decreasing_by
  · simp
  · simp only [hls, List.length_cons, List.length_append]
    omega
  · simp only [hls, List.length_cons, List.length_append]
    omega

theorem Divided.unique {ls : List Text} {p q : Passages} (hp : Divided ls p)
    (hq : Divided ls q) : q = p := by
  induction hp generalizing q with
  | nil =>
    cases hq
    rfl
  | line hl _ ih =>
    generalize hlines : _ :: _ = ls at hq
    cases hq with
    | nil => cases hlines
    | line hl' hrest' =>
      cases hlines
      rw [ih hrest']
    | callout hhead' =>
      cases hlines
      rw [hl] at hhead'
      cases hhead'
  | callout hhead hquoted hbehind _ _ ihInner ihRest =>
    generalize hlines : _ :: _ = ls at hq
    cases hq with
    | nil => cases hlines
    | line hl' =>
      cases hlines
      rw [hhead] at hl'
      cases hl'
    | callout hhead' hquoted' hbehind' hinner' hrest' =>
      obtain ⟨rfl, hboth⟩ := List.cons.inj hlines
      rw [hhead] at hhead'
      cases hhead'
      have htaken := congrArg (List.takeWhile isQuoted) hboth
      have hleft := congrArg (List.dropWhile isQuoted) hboth
      rw [takeWhile_isQuoted hquoted hbehind, takeWhile_isQuoted hquoted' hbehind'] at htaken
      rw [dropWhile_isQuoted hquoted hbehind, dropWhile_isQuoted hquoted' hbehind'] at hleft
      subst htaken hleft
      rw [ihInner hinner', ihRest hrest']

-- the second head shows when the lead-in in front of it is taken off
example : Divided ["> [!lemma] A", "> Step 1. > [!proof]", "> > x", "y"]
    (.callout "lemma" "A" (.callout "proof" [] (.line "x" .nil) .nil) (.line "y" .nil)) := by
  have hproof : Divided ["> [!proof]", "> x"] (.callout "proof" [] (.line "x" .nil) .nil) :=
    @Divided.callout "> [!proof]" "proof" [] ["> x"] [] _ _ (by decide) (by decide) nofun
      (.line (by decide) .nil) .nil
  exact @Divided.callout "> [!lemma] A" "lemma" "A" ["> Step 1. > [!proof]", "> > x"] ["y"] _ _
    (by decide) (by decide) (by decide) hproof (.line (by decide) .nil)

/-- Callouts stand in each other no deeper than there are lines. -/
theorem Divided.depth_le {ls : List Text} {p : Passages} (h : Divided ls p) :
    p.depth ≤ ls.length := by
  induction h with
  | nil => exact Nat.le_refl 0
  | line hl _ ih =>
    simp only [Passages.depth, List.length_cons]
    omega
  | @callout head name title quoted behind inner rest hhead hquoted hbehind _ _ ihInner ihRest =>
    have hshorter : (bodyOf quoted).length ≤ quoted.length := by
      rw [length_bodyOf]
      exact (List.takeWhile_sublist _).length_le
    simp only [Passages.depth, List.length_cons, List.length_append]
    omega

/-- **Reading follows the passages.** -/
theorem Divided.toEnvironmentLines_eq {ls : List Text} {p : Passages} (h : Divided ls p) :
    toEnvironmentLines ls = p.entries := by
  induction h with
  | nil => rw [toEnvironmentLines, Passages.entries]
  | line hl _ ih =>
    rw [toEnvironmentLines, hl]
    simp only
    rw [ih, Passages.entries]
  | callout hhead hquoted hbehind _ _ ihInner ihRest =>
    rw [toEnvironmentLines, hhead]
    simp only
    rw [bodyOf_append hquoted hbehind, dropWhile_isQuoted hquoted hbehind, ihInner, ihRest]
    rfl

/-! ### Parts that are read by themselves -/

/-- A callout is **open** behind some lines: a quoted line there would belong to it. -/
def OpenBehind (ls : List Text) : Prop :=
  ∃ front head quoted, ls = front ++ head :: quoted ∧ theoremHead? head ≠ none ∧
    ∀ q ∈ quoted, isQuoted q

theorem OpenBehind.append_left {ls : List Text} (h : OpenBehind ls) (more : List Text) :
    OpenBehind (more ++ ls) := by
  obtain ⟨front, head, quoted, rfl, hhead, hquoted⟩ := h
  exact ⟨more ++ front, head, quoted, (List.append_assoc _ _ _).symm, hhead, hquoted⟩

/-- Lines behind others are divided by themselves if no callout goes on across the border. -/
theorem Divided.append {front back : List Text} {p q : Passages} (hp : Divided front p)
    (hq : Divided back q) (hborder : OpenBehind front → ∀ l ∈ back.head?, isQuoted l = false) :
    Divided (front ++ back) (p.append q) := by
  induction hp with
  | nil => exact hq
  | @line l ls rest hl _ ih => exact .line hl (ih fun h => hborder (h.append_left [l]))
  | @callout head name title quoted behind inner rest hhead hquoted hbehind hinner _ _ ih =>
    have hopen : OpenBehind behind → ∀ l ∈ back.head?, isQuoted l = false := by
      intro h
      have hwhole := h.append_left (head :: quoted)
      rw [List.cons_append] at hwhole
      exact hborder hwhole
    rw [List.cons_append, List.append_assoc]
    refine .callout hhead hquoted ?_ hinner (ih hopen)
    cases behind with
    | nil =>
      rw [List.nil_append]
      refine hborder ⟨[], head, quoted, ?_, ?_, hquoted⟩
      · simp
      · rw [hhead]
        exact Option.some_ne_none _
    | cons l ls => exact hbehind

/-- **Parts of a document are read by themselves** unless a callout goes on across the border. -/
theorem toEnvironmentLines_append {front back : List Text}
    (hborder : OpenBehind front → ∀ l ∈ back.head?, isQuoted l = false) :
    toEnvironmentLines (front ++ back) = toEnvironmentLines front ++ toEnvironmentLines back := by
  obtain ⟨p, hp⟩ := exists_divided front
  obtain ⟨q, hq⟩ := exists_divided back
  rw [(hp.append hq hborder).toEnvironmentLines_eq, hp.toEnvironmentLines_eq,
    hq.toEnvironmentLines_eq, Passages.entries_append]

/-- A line that lies in no callout stays as it is. -/
theorem toEnvironmentLines_of_outside {front back : List Text} {l : Text}
    (h : ¬ OpenBehind (front ++ [l])) :
    toEnvironmentLines (front ++ l :: back) =
      toEnvironmentLines front ++ l :: toEnvironmentLines back := by
  have hl : theoremHead? l = none := by
    by_contra hhead
    exact h ⟨front, l, [], rfl, hhead, nofun⟩
  have hborder : OpenBehind front → ∀ x ∈ (l :: back).head?, isQuoted x = false := by
    rintro ⟨u, head, quoted, rfl, hhead, hquoted⟩ x hx
    cases hx
    by_contra hquote
    refine h ⟨u, head, quoted ++ [l], by simp, hhead, ?_⟩
    intro q hq
    rcases List.mem_append.mp hq with hq | hq
    · exact hquoted q hq
    · rw [List.mem_singleton.mp hq]
      simpa using hquote
  rw [toEnvironmentLines_append hborder, toEnvironmentLines, hl]

theorem toEnvironmentLines_ne_nil {ls : List Text} (h : ls ≠ []) : toEnvironmentLines ls ≠ [] := by
  obtain ⟨l, ls, rfl⟩ := List.exists_cons_of_ne_nil h
  rw [toEnvironmentLines]
  split
  · exact List.cons_ne_nil _ _
  · exact List.cons_ne_nil _ _

/-- Two texts on lines of their own, the second one not quoted, are read by themselves. -/
theorem toEnvironments_append_feed (text : Text) {back : Text} (hback : back.head? ≠ some '>') :
    toEnvironments (text ++ '\n' :: back) = toEnvironments text ++ '\n' :: toEnvironments back := by
  have hfirst : ∀ l ∈ (lines back).head?, isQuoted l = false := by
    intro l hl
    obtain ⟨ls, hlines⟩ := List.head?_eq_some_iff.mp hl
    cases l with
    | nil => rfl
    | cons c l =>
      have hjoined : unlines ((c :: l) :: ls) = back := hlines ▸ Text.join_splitOn '\n' back
      rw [← hjoined, Text.unlines_cons] at hback
      simpa [isQuoted] using hback
  have hlines : ∀ t : Text, toEnvironmentLines (lines t) ≠ [] := fun t =>
    toEnvironmentLines_ne_nil (Text.splitOn_ne_nil '\n' t)
  rw [toEnvironments, Text.lines_append_feed, toEnvironmentLines_append fun _ => hfirst,
    Text.unlines_append (hlines text) (hlines back)]
  rfl

/-! ### Beginnings and ends in pairs -/

/-- Lines that begin and end environments in **pairs**: between the lines of a pair stand pairs
    only, and both have one name.  The number is that of the pairs. -/
inductive Paired : Nat → List Text → Prop where
  | nil : Paired 0 []
  | pair {m n : Nat} {inner rest : List Text} (name title : Text) (hname : name ∈ defaultNames)
    (hinner : Paired m inner) (hrest : Paired n rest) :
    Paired (m + n + 1) (openingLine name title :: (inner ++ Markup.endMarker name :: rest))

/-- The line is written up to both of its ends. -/
def Written (l : Text) : Prop := BeginsWritten l ∧ EndsWritten l

theorem written_openingLine (name title : Text) : Written (openingLine name title) := by
  constructor
  · exact ⟨'\\', rfl, by decide⟩
  · unfold openingLine
    split
    · rw [List.append_nil]
      exact EndsWritten.append ⟨'}', List.getLast?_concat (l := '{' :: name), by decide⟩ _
    · exact EndsWritten.append
        ⟨']', List.getLast?_concat (l := '[' :: strip title), by decide⟩ _

theorem written_endMarker (name : Text) : Written (Markup.endMarker name) :=
  ⟨⟨'\\', rfl, by decide⟩,
    EndsWritten.append ⟨'}', List.getLast?_concat (l := '{' :: name), by decide⟩ _⟩

theorem Paired.written {n : Nat} {ls : List Text} (h : Paired n ls) : ∀ l ∈ ls, Written l := by
  induction h with
  | nil => nofun
  | pair name title hname _ _ ihInner ihRest =>
    rw [List.forall_mem_cons, List.forall_mem_append, List.forall_mem_cons]
    exact ⟨written_openingLine name title, ihInner, written_endMarker name, ihRest⟩

/-- The lines with a backslash. -/
def commandLines (ls : List Text) : List Text := ls.filter fun l => l.contains '\\'

theorem commandLines_append (ls more : List Text) :
    commandLines (ls ++ more) = commandLines ls ++ commandLines more := List.filter_append _ _

theorem commandLines_singleton {l : Text} (h : '\\' ∈ l) : commandLines [l] = [l] := by
  simp [commandLines, h]

theorem ne_backslash_of_isBlank {c : Char} (hc : isBlank c) : c ≠ '\\' := by
  rintro rfl
  revert hc
  decide

/-- Blanks in front of a text are on no line with a command if those begin written. -/
theorem commandLines_blank_append {u : Text} (hu : ∀ c ∈ u, isBlank c) (t : Text)
    (h : ∀ l ∈ commandLines (lines (u ++ t)), BeginsWritten l) :
    commandLines (lines (u ++ t)) = commandLines (lines t) := by
  induction u with
  | nil => rfl
  | cons c u ih =>
    obtain ⟨hc, hu⟩ := List.forall_mem_cons.mp hu
    -- the line of the blank has no command, with it or without it
    suffices hsame : commandLines (lines (c :: u ++ t)) = commandLines (lines (u ++ t)) by
      rw [hsame] at h ⊢
      exact ih hu h
    by_cases hfeed : c = '\n'
    · rw [hfeed, List.cons_append, ← List.nil_append ('\n' :: (u ++ t)),
        Text.lines_append List.not_mem_nil]
      rfl
    · obtain ⟨f, fs, hf⟩ := List.exists_cons_of_ne_nil (Text.splitOn_ne_nil '\n' (u ++ t))
      have hlines : lines (c :: u ++ t) = (c :: f) :: fs :=
        Text.lines_append_left (u := [c]) (by simpa using Ne.symm hfeed) hf
      have hf' : '\\' ∉ f := by
        intro hmem
        have hkept : c :: f ∈ commandLines (lines (c :: u ++ t)) := by
          rw [hlines]
          simp [commandLines, hmem]
        obtain ⟨d, hd, hwritten⟩ := h _ hkept
        cases hd
        exact hwritten hc
      rw [hlines, show lines (u ++ t) = f :: fs from hf]
      simp [commandLines, hf', (ne_backslash_of_isBlank hc).symm]

/-- Blanks behind a text are on no line with a command if those end written. -/
theorem commandLines_append_blank {v : Text} (hv : ∀ c ∈ v, isBlank c) (t : Text)
    (h : ∀ l ∈ commandLines (lines (t ++ v)), EndsWritten l) :
    commandLines (lines (t ++ v)) = commandLines (lines t) := by
  induction v using List.reverseRecOn with
  | nil => rw [List.append_nil]
  | append_singleton v c ih =>
    rw [List.forall_mem_append, List.forall_mem_singleton] at hv
    obtain ⟨hv, hc⟩ := hv
    suffices hsame : commandLines (lines (t ++ (v ++ [c]))) = commandLines (lines (t ++ v)) by
      rw [hsame] at h ⊢
      exact ih hv h
    rw [← List.append_assoc] at h ⊢
    by_cases hfeed : c = '\n'
    · rw [hfeed, Text.lines_append_feed, commandLines_append]
      exact List.append_nil _
    · obtain ⟨ls, hls, hmore⟩ := Text.exists_lines (t ++ v)
      have hlines : lines (t ++ v ++ [c]) = ls ++ [Text.lastLine (t ++ v) ++ [c]] :=
        hmore [c] [c] [] (Text.lines_of_not_mem (by simpa using Ne.symm hfeed))
      have hlast : '\\' ∉ Text.lastLine (t ++ v) := by
        intro hmem
        have hkept : Text.lastLine (t ++ v) ++ [c] ∈ commandLines (lines (t ++ v ++ [c])) := by
          rw [hlines]
          simp [commandLines, hmem]
        obtain ⟨d, hd, hwritten⟩ := h _ hkept
        rw [List.getLast?_concat] at hd
        cases hd
        exact hwritten hc
      rw [hlines, hls, commandLines_append, commandLines_append]
      simp [commandLines, hlast, (ne_backslash_of_isBlank hc).symm]

/-- Trimming a text leaves the lines with commands alone if they are written to their ends. -/
theorem commandLines_strip {t : Text} (h : ∀ l ∈ commandLines (lines t), Written l) :
    commandLines (lines (strip t)) = commandLines (lines t) := by
  obtain ⟨u, v, ht, hu, hv⟩ := Text.exists_strip t
  have hfront : commandLines (lines t) = commandLines (lines (strip t ++ v)) := by
    conv_lhs => rw [ht]
    refine commandLines_blank_append hu _ ?_
    rw [← ht]
    exact fun l hl => (h l hl).1
  rw [hfront, commandLines_append_blank hv]
  rw [← hfront]
  exact fun l hl => (h l hl).2

theorem commandLines_unlines (es : List Text) :
    commandLines (lines (unlines es)) = commandLines (es.flatMap lines) := by
  induction es with
  | nil => rfl
  | cons e es ih =>
    have hone : unlines [e] = e := by simp [Text.unlines_cons]
    cases es with
    | nil => rw [hone, List.flatMap_singleton]
    | cons e' es =>
      rw [← List.singleton_append, Text.unlines_append (by simp) (by simp), Text.lines_append_feed,
        commandLines_append, ih, List.flatMap_append, commandLines_append, List.flatMap_singleton,
        hone]

theorem theoremHead?_eq_some {line name title : Text} (h : theoremHead? line = some (name, title)) :
    head? line = some (name, title) ∧ name ∈ defaultNames := by
  obtain ⟨hhead, hname⟩ := Option.filter_eq_some_iff.mp h
  exact ⟨hhead, List.contains_iff_mem.mp hname⟩

theorem feed_not_mem_braced {name : Text} (hname : name ∈ defaultNames) :
    '\n' ∉ Text.braced name := by
  have hletters : ∀ name ∈ defaultNames, '\n' ∉ name := by decide
  simp [Text.braced, hletters name hname]

/-- A line that begins an environment is one line. -/
theorem lines_openingLine {line name title : Text} (h : theoremHead? line = some (name, title))
    (hline : '\n' ∉ line) : lines (openingLine name title) = [openingLine name title] := by
  obtain ⟨hhead, hname⟩ := theoremHead?_eq_some h
  obtain ⟨-, w, rfl, -⟩ := takenFromLine_head? hhead
  have htitle : '\n' ∉ strip title := fun hmem =>
    hline (List.mem_append_right w (Text.mem_of_mem_strip hmem))
  have hmark : '\n' ∉ Markup.beginMarker name :=
    List.not_mem_append (by decide) (feed_not_mem_braced hname)
  apply Text.lines_of_not_mem
  unfold openingLine
  split
  · exact List.not_mem_append hmark List.not_mem_nil
  · exact List.not_mem_append hmark (by simp [Text.bracketed, htitle])

/-- The lines with commands that a callout is written with. -/
theorem commandLines_callout {head name title : Text}
    (hhead : theoremHead? head = some (name, title)) (hfeed : '\n' ∉ head) {inner : Passages}
    (rest : Passages) (hinner : ∀ l ∈ commandLines (inner.entries.flatMap lines), Written l) :
    commandLines ((Passages.callout name title inner rest).entries.flatMap lines) =
      openingLine name title :: (commandLines (inner.entries.flatMap lines) ++
        Markup.endMarker name :: commandLines (rest.entries.flatMap lines)) := by
  -- trimming the content takes no line with a command away
  have hcontent : commandLines (lines (strip (unlines inner.entries))) =
      commandLines (inner.entries.flatMap lines) := by
    rw [← commandLines_unlines] at hinner ⊢
    exact commandLines_strip hinner
  have hentry : commandLines ((if (strip (unlines inner.entries)).isEmpty then []
      else [strip (unlines inner.entries)]).flatMap lines) =
        commandLines (lines (strip (unlines inner.entries))) := by
    split
    · rename_i hempty
      rw [List.isEmpty_iff.mp hempty]
      rfl
    · rw [List.flatMap_singleton]
  have hend : lines (Markup.endMarker name) = [Markup.endMarker name] :=
    Text.lines_of_not_mem
      (List.not_mem_append (by decide) (feed_not_mem_braced (theoremHead?_eq_some hhead).2))
  have hbegins : '\\' ∈ openingLine name title := List.mem_cons_self
  have hends : '\\' ∈ Markup.endMarker name := List.mem_cons_self
  rw [Passages.entries, List.flatMap_cons, List.flatMap_append, List.flatMap_cons,
    commandLines_append, commandLines_append, commandLines_append, hentry, hcontent,
    lines_openingLine hhead hfeed, hend, commandLines_singleton hbegins,
    commandLines_singleton hends]
  rfl

/-- **The lines written for callouts** are beginnings and ends in pairs, one pair for each. -/
theorem Divided.paired {ls : List Text} {p : Passages} (h : Divided ls p)
    (hls : ∀ l ∈ ls, '\n' ∉ l ∧ '\\' ∉ l) :
    Paired p.callouts (commandLines (p.entries.flatMap lines)) := by
  induction h with
  | nil => exact .nil
  | @line l ls rest hl _ ih =>
    obtain ⟨⟨hfeed, hplain⟩, hls⟩ := List.forall_mem_cons.mp hls
    have hnone : commandLines [l] = [] := by simp [commandLines, hplain]
    rw [Passages.entries, List.flatMap_cons, Text.lines_of_not_mem hfeed, commandLines_append,
      hnone]
    exact ih hls
  | @callout head name title quoted behind inner rest hhead hquoted hbehind _ _ ihInner ihRest =>
    rw [List.forall_mem_cons, List.forall_mem_append] at hls
    obtain ⟨⟨hfeed, -⟩, hlsQuoted, hlsBehind⟩ := hls
    have hlsBody : ∀ l ∈ bodyOf quoted, '\n' ∉ l ∧ '\\' ∉ l := by
      intro l hl
      obtain ⟨q, hq, hsuffix⟩ := exists_of_mem_bodyOf hl
      obtain ⟨hqFeed, hqPlain⟩ := hlsQuoted q hq
      exact ⟨fun hmem => hqFeed (hsuffix.subset hmem), fun hmem => hqPlain (hsuffix.subset hmem)⟩
    have hinner := ihInner hlsBody
    rw [commandLines_callout hhead hfeed rest hinner.written]
    exact .pair name title (theoremHead?_eq_some hhead).2 hinner (ihRest hlsBehind)

/-! ### The whole document -/

/-- **Callouts of a document, turned back.**  A text behind another one is read by itself unless it
    begins with a quoted line.  A line that lies in no callout is copied, and what stands in front
    of it and behind it is read by itself.  Every document is divided into passages in one way,
    with no more levels of callouts than lines, and what is written are these passages.  Without
    backslashes in the document, the lines with commands are those of the callouts, in pairs. -/
theorem environments_of_passages (text : Text) :
    (∀ back : Text, back.head? ≠ some '>' →
      toEnvironments (text ++ '\n' :: back) =
        toEnvironments text ++ '\n' :: toEnvironments back) ∧
    (∀ front l back, lines text = front ++ l :: back → ¬ OpenBehind (front ++ [l]) →
      toEnvironments text = unlines (toEnvironmentLines front ++ l :: toEnvironmentLines back)) ∧
    ∃ p : Passages, (∀ q, Divided (lines text) q ↔ q = p) ∧ p.depth ≤ (lines text).length ∧
      toEnvironments text = unlines p.entries ∧
      ('\\' ∉ text → Paired p.callouts (commandLines (lines (toEnvironments text)))) := by
  obtain ⟨p, hp⟩ := exists_divided (lines text)
  have hentries : toEnvironments text = unlines p.entries := by
    rw [toEnvironments, hp.toEnvironmentLines_eq]
  refine ⟨fun back hback => toEnvironments_append_feed text hback, ?_, p, ?_, hp.depth_le,
    hentries, ?_⟩
  · intro front l back hlines houtside
    rw [toEnvironments, hlines, toEnvironmentLines_of_outside houtside]
  · intro q
    constructor
    · exact hp.unique
    · rintro rfl
      exact hp
  · intro hplain
    have hls : ∀ l ∈ lines text, '\n' ∉ l ∧ '\\' ∉ l := by
      intro l hl
      obtain ⟨hfeed, u, v, rfl, -⟩ := Text.exists_of_mem_lines hl
      exact ⟨hfeed, fun hmem => hplain (by simp [hmem])⟩
    rw [hentries, commandLines_unlines]
    exact hp.paired hls

end TexMark.Callout
