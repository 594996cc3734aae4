/-
  TexMark/Proofs/Theorem/Titles.lean
  ==================================
  **Titles come back.**  When a callout is read, its title is put between brackets, and when the
  environment is converted, the title is what stands up to the bracket that closes this group.  So
  a title comes back if its own brackets are balanced; one that closes nothing ends the title.

    * `resolve_titled` — a document that is one theorem with a title is one callout;
    * `toEnvironments_titled` — a callout with a title is read as one theorem;
    * `callout_of_titled` — so the callout comes back, with its title and its body trimmed.
-/
import TexMark.Proofs.Conversion.Unmarked
import TexMark.Proofs.Groups
import TexMark.Proofs.Theorem.Headings
import TexMark.Proofs.Theorem.Reading

namespace TexMark

/-! ### Balanced titles -/

namespace Group

variable {opener closer : Char} {t : Text}

theorem Balanced.strip (h : Balanced opener closer t) (hopener : ¬ Text.isBlank opener)
    (hcloser : ¬ Text.isBlank closer) : Balanced opener closer (Text.strip t) := by
  obtain ⟨u, v, ht, hu, hv⟩ := Text.exists_strip t
  have hnone : ∀ {w : Text}, (∀ c ∈ w, Text.isBlank c) → w.count opener = 0 ∧ w.count closer = 0 :=
    fun hw => ⟨List.count_eq_zero.mpr fun hmem => hopener (hw _ hmem),
      List.count_eq_zero.mpr fun hmem => hcloser (hw _ hmem)⟩
  constructor
  · intro w hw
    obtain ⟨s, hs⟩ := (List.mem_inits w _).mp hw
    have hprefix : u ++ w <+: t := ⟨s ++ v, by rw [ht, ← hs]; simp⟩
    have hcount := h.1 (u ++ w) ((List.mem_inits _ t).mpr hprefix)
    simpa [hnone hu] using hcount
  · have hcount := h.2
    rw [ht] at hcount
    simpa [hnone hu, hnone hv] using hcount

end Group

/-! ### One theorem alone -/

namespace Environment

section

variable {name : Text}

theorem bracedName?_braced (hne : name ≠ []) (hname : ∀ c ∈ name, isNameChar c) (rest : Text) :
    bracedName? (Text.braced name ++ rest) = some (name, rest) := by
  have hskip : ∀ t : Text, Text.skipBlanks (name ++ t) = name ++ t := by
    intro t
    obtain ⟨c, u, rfl⟩ := List.exists_cons_of_ne_nil hne
    have hc := hname c List.mem_cons_self
    simp only [isNameChar, Bool.and_eq_true] at hc
    exact List.dropWhile_cons_of_neg (by simpa using hc.2)
  have hbrace : isNameChar '}' = false := by decide
  have hrun : Markup.run isNameChar (name ++ '}' :: rest) = (name, '}' :: rest) := by
    rw [Markup.run, List.takeWhile_append_of_pos hname, List.dropWhile_append_of_pos hname]
    simp [hbrace]
  have hopened : Text.skipBlanks (Text.braced name ++ rest) = '{' :: (name ++ '}' :: rest) := by
    rw [Text.braced, List.cons_append, List.append_assoc]
    exact List.dropWhile_cons_of_neg (by decide)
  have hclosed : Text.skipBlanks ('}' :: rest) = '}' :: rest :=
    List.dropWhile_cons_of_neg (by decide)
  simp [bracedName?, hopened, Markup.char?, hskip, hrun, hclosed, hne]

theorem token_beginMarker (hne : name ≠ []) (hname : ∀ c ∈ name, isNameChar c)
    (before rest : Text) :
    token before (Markup.beginMarker name ++ rest) = some (.opening name, rest) := by
  have hcommand : Markup.command? "begin" (Markup.beginMarker name ++ rest) =
      some (Text.braced name ++ rest) := rfl
  rw [token, hcommand, Option.bind_some, bracedName?_braced hne hname]
  rfl

theorem token_endMarker (hne : name ≠ []) (hname : ∀ c ∈ name, isNameChar c)
    (before rest : Text) :
    token before (Markup.endMarker name ++ rest) = some (.closing name, rest) := by
  have hother : Markup.command? "begin" (Markup.endMarker name ++ rest) = none := rfl
  have hcommand : Markup.command? "end" (Markup.endMarker name ++ rest) =
      some (Text.braced name ++ rest) := rfl
  rw [token, hother, hcommand, Option.bind_some, bracedName?_braced hne hname]
  rfl

/-- The marks of one environment without commands. -/
theorem hits_alone (hne : name ≠ []) (hname : ∀ c ∈ name, isNameChar c) {inside : Text}
    (hinside : '\\' ∉ inside) :
    Scan.hits token (Markup.beginMarker name ++ (inside ++ Markup.endMarker name)) =
      [⟨0, (Markup.beginMarker name).length, .opening name⟩,
        ⟨(Markup.beginMarker name ++ inside).length,
          (Markup.beginMarker name ++ (inside ++ Markup.endMarker name)).length,
          .closing name⟩] := by
  have hplain : ∀ c ∈ inside, ¬ IsBackslash c := fun c hc h => hinside (h ▸ hc)
  have hbegun : Markup.beginMarker name ≠ [] := List.cons_ne_nil _ _
  have hended : Markup.endMarker name ≠ [] := List.cons_ne_nil _ _
  have hend := token_endMarker hne hname
    (inside.reverse ++ ((Markup.beginMarker name).reverse ++ [])) []
  have hlast := Scan.hitsFrom_of_some
    (0 + (Markup.beginMarker name).length + inside.length) hended hend
  rw [List.append_nil (Markup.endMarker name)] at hlast
  rw [Scan.hits, Scan.hitsFrom_of_some 0 hbegun (token_beginMarker hne hname [] _),
    Scan.hitsFrom_pass token_begins hplain, hlast]
  simp only [Nat.zero_add, List.length_append, Nat.add_assoc]
  rfl

end

/-- One theorem with a title, as it is written. -/
def titled (name title content : Text) : Text :=
  Markup.beginMarker name ++ (Text.bracketed title ++ content ++ Markup.endMarker name)

/-- The frame of a theorem with a title at the beginning of a document. -/
def titledFrame (name title : Text) : Frame :=
  ⟨name, 0, (Markup.beginMarker name ++ Text.bracketed title).length, [], none, none, some title,
    false⟩

section

variable {settings : Settings} {register : TheoremRegister} {name title content : Text}

theorem not_isInline_zero (text : Text) : isInline text 0 = false := by
  simp [isInline, Text.slice, Scan.replace, Scan.replaceFrom, Text.isBlankText]

theorem isTracked_of_mem_defaultNames (settings : Settings) (register : TheoremRegister)
    (hname : name ∈ Callout.defaultNames) : isTracked settings register name := by
  have hlegacy : ∀ name ∈ Callout.defaultNames, name ∉ legacyNames := by decide
  simp [isTracked, isTheorem, hlegacy name hname, hname]

theorem isNameChar_of_mem_defaultNames (hname : name ∈ Callout.defaultNames) :
    name ≠ [] ∧ ∀ c ∈ name, isNameChar c := by
  have hall : Callout.defaultNames.all fun name => !name.isEmpty && name.all isNameChar := by
    decide
  simpa using List.all_eq_true.mp hall name hname

/-- The title of a theorem is read at its beginning. -/
theorem frameAt_titled (hname : name ∈ Callout.defaultNames)
    (hkind : register.kinds.get? name = none) (hconverter : settings.converters.get? name = none)
    (htitle : '\\' ∉ title) (hbalanced : Group.Balanced '[' ']' title) :
    frameAt settings register (titled name title content) name 0
      (Markup.beginMarker name).length = (titledFrame name title, register) := by
  have hknown : settings.converters.has name = false := by simp [Table.has, hconverter]
  have htheorem : isTheorem register name := by simp [isTheorem, hname]
  have hnumber : register.nextNumber name = (none, register) := by
    rw [TheoremRegister.nextNumber, hkind]
  have hdrop : (titled name title content).drop (Markup.beginMarker name).length =
      '[' :: (title ++ ']' :: (content ++ Markup.endMarker name)) := by
    rw [titled, List.drop_left]
    simp [Text.bracketed]
  have hread : Group.brackets? (((titled name title content).drop
      (Markup.beginMarker name).length).dropWhile Text.isLineBlank) =
        some (title, content ++ Markup.endMarker name) := by
    rw [hdrop, List.dropWhile_cons_of_neg (by decide)]
    exact Group.read?_of_balanced (by decide) (by decide) (by decide) htitle hbalanced _
  have hbehind : (titled name title content).length -
      (content ++ Markup.endMarker name).length =
        (Markup.beginMarker name ++ Text.bracketed title).length := by
    simp only [titled, List.length_append]
    omega
  unfold frameAt
  simp only [hknown, htheorem, hnumber, hread, not_isInline_zero, hbehind, Bool.and_false,
    Bool.not_false, Bool.and_true, Bool.false_eq_true, if_true, if_false]
  rfl

/-- The end of a theorem without commands is not escaped. -/
theorem not_isEscaped_end (name : Text) {inside : Text} (hinside : '\\' ∉ inside) :
    Scan.isEscaped (Markup.beginMarker name ++ (inside ++ Markup.endMarker name))
      (Markup.beginMarker name ++ inside).length = false := by
  have hbegun : Scan.escapedBehind false (Markup.beginMarker name) = false := by
    have hbrace : Markup.beginMarker name = "\\begin".toList ++ '{' :: name ++ ['}'] :=
      (List.append_assoc "\\begin".toList ('{' :: name) ['}']).symm
    rw [hbrace]
    exact Scan.escapedBehind_concat false _ (by decide)
  have hescapes := Scan.escapedBehind_escapes [] (Markup.beginMarker name ++ inside)
  rw [List.append_nil, Scan.escapedBehind_append] at hescapes
  rw [Scan.isEscaped, ← List.append_assoc, List.take_left, ← hescapes]
  change Scan.escapedBehind (Scan.escapedBehind false _) _ = false
  rw [hbegun, Scan.escapedBehind_of_not_mem hinside]

/-- The events of a theorem alone: it begins, and it ends. -/
theorem events_titled (hname : name ∈ Callout.defaultNames)
    (hkind : register.kinds.get? name = none) (hconverter : settings.converters.get? name = none)
    (htitle : '\\' ∉ title) (hbalanced : Group.Balanced '[' ']' title) (hcontent : '\\' ∉ content) :
    events settings register (titled name title content) =
      [⟨0, (Markup.beginMarker name).length, .opening name⟩,
        ⟨(Markup.beginMarker name ++ (Text.bracketed title ++ content)).length,
          (titled name title content).length, .closing name⟩] := by
  have hinside : '\\' ∉ Text.bracketed title ++ content := by
    simp [Text.bracketed, htitle, hcontent]
  obtain ⟨hne, hchars⟩ := isNameChar_of_mem_defaultNames hname
  have hhits := hits_alone hne hchars hinside
  have hescaped := not_isEscaped_end name hinside
  have hfirst : Scan.isEscaped (titled name title content) 0 = false := rfl
  have hbehind : ¬ (Markup.beginMarker name ++ (Text.bracketed title ++ content)).length <
      (titledFrame name title).contentStart := by
    rw [← List.append_assoc, List.length_append]
    exact Nat.not_lt.mpr (Nat.le_add_right _ _)
  have htracked := isTracked_of_mem_defaultNames settings register hname
  have hframe : frameAt settings register (titled name title content) name 0 _ = _ :=
    frameAt_titled hname hkind hconverter htitle hbalanced
  rw [← titled] at hhits hescaped
  rw [events, hhits]
  simp only [accepted, event?, cursorAfter, registerAfter, hframe, hfirst, hescaped, htracked,
    hbehind, Nat.not_lt_zero, Bool.false_eq_true, or_self, if_false, if_true]

/-- **A document that is one theorem with a title**, without a declaration and without commands,
    is one callout. -/
theorem resolve_titled (equations : Nat) (hname : name ∈ Callout.defaultNames)
    (hkind : register.kinds.get? name = none) (hconverter : settings.converters.get? name = none)
    (htitle : '\\' ∉ title) (hbalanced : Group.Balanced '[' ']' title) (hcontent : '\\' ∉ content) :
    resolve settings register equations (titled name title content) =
      pure ⟨Callout.render register name content none (some title), register, equations⟩ := by
  set text := titled name title content with htext
  have htheorem : isTheorem register name := by simp [isTheorem, hname]
  have hinside : Edit.splice text (titledFrame name title).contentStart
      (Markup.beginMarker name ++ (Text.bracketed title ++ content)).length
      (titledFrame name title).edits = content := by
    have hdrop : text.drop (Markup.beginMarker name ++ Text.bracketed title).length =
        content ++ Markup.endMarker name := by
      rw [htext, titled, List.append_assoc, ← List.append_assoc, List.drop_left]
    rw [← List.append_assoc, List.length_append]
    exact Text.slice_of_drop hdrop
  have hopen : advance mayNest settings text (.start register equations)
      ⟨0, (Markup.beginMarker name).length, .opening name⟩ =
        pure ⟨[titledFrame name title], [], 0, register, equations⟩ := by
    simp only [advance, registerAfter, Progress.start, List.head?_nil, Option.map_none,
      reportNesting, pure_bind, htext, frameAt_titled hname hkind hconverter htitle hbalanced]
  have hconvert : (titledFrame name title).convert settings register content equations =
      pure (Callout.render register name content none (some title), equations) :=
    convert_instance hconverter htheorem content equations
  have hclose : advance mayNest settings text
      ⟨[titledFrame name title], [], 0, register, equations⟩
      ⟨(Markup.beginMarker name ++ (Text.bracketed title ++ content)).length, text.length,
        .closing name⟩ =
        pure ⟨[], [⟨0, text.length, Callout.render register name content none (some title)⟩], 0,
          register, equations⟩ := by
    have hstack : (⟨[titledFrame name title], [], 0, register, equations⟩ : Progress).stack =
        titledFrame name title :: [] := rfl
    have hcalled : (titledFrame name title).name = name := rfl
    change close settings text _ name _ _ = _
    rw [close_convert hstack hcalled, hinside, hconvert]
    rfl
  have hwhole : ∀ c : Text, Edit.splice text 0 text.length [⟨0, text.length, c⟩] = c := by
    intro c
    simp [Edit.splice, Text.slice]
  rw [resolve_eq_run, resolveUnder, run,
    events_titled hname hkind hconverter htitle hbalanced hcontent, List.foldlM_cons, hopen,
    pure_bind, List.foldlM_cons, hclose, pure_bind, List.foldlM_nil, pure_bind]
  change (⟨[], .ok ⟨Edit.splice text 0 text.length [_], register, equations⟩⟩ : Noted Resolved) = _
  rw [hwhole]
  rfl

end

end Environment

/-! ### A callout with a title -/

namespace Callout

open Environment (titled)
open Text (lines unlines strip stripEnd isBlank isBlankText)

variable {register : TheoremRegister} {head name title : Text} {quoted : List Text}

/-- A content between the lines that begin and end its environment. -/
def enclosed (content : Text) : Text := '\n' :: if content.isEmpty then [] else content ++ ['\n']

theorem strip_enclosed (t : Text) : strip (enclosed (strip t)) = strip t := by
  have hfeed : isBlank '\n' := by decide
  unfold enclosed
  rw [Text.strip_cons_blank hfeed]
  split
  · rename_i hempty
    rw [List.isEmpty_iff.mp hempty]
    rfl
  · rw [Text.strip_append_blank (by simpa using hfeed), Text.strip_strip]

theorem not_mem_enclosed {c : Char} (hc : c ≠ '\n') {content : Text} (h : c ∉ content) :
    c ∉ enclosed content := by
  unfold enclosed
  split
  · simpa using hc
  · simp [hc, h]

/-- **A callout with a title is read** as one theorem with this title. -/
theorem toEnvironments_titled (hhead : theoremHead? head = some (name, title))
    (htitle : strip title ≠ []) (hfeed : ∀ l ∈ head :: quoted, '\n' ∉ l)
    (hquoted : ∀ q ∈ quoted, isQuoted q) (hheads : ∀ l ∈ bodyOf quoted, theoremHead? l = none) :
    toEnvironments (unlines (head :: quoted)) =
      titled name (strip title) (enclosed (strip (unlines (bodyOf quoted)))) := by
  have hbehind : quoted.dropWhile isQuoted = [] := by
    rw [List.dropWhile_eq_nil_iff]
    exact hquoted
  have hshown : (strip title).isEmpty = false := by simpa using htitle
  rw [toEnvironments, Text.lines_unlines hfeed, toEnvironmentLines, hhead]
  simp only
  rw [hbehind, toEnvironmentLines, toEnvironmentLines_eq_self hheads, hshown]
  unfold titled enclosed
  by_cases hempty : (strip (unlines (bodyOf quoted))).isEmpty
  · simp [hempty, Text.unlines_cons]
  · simp [hempty, Text.unlines_cons]

theorem quotedLine_emptied (line : Text) : quotedLine (emptied line) = quotedLine line := by
  unfold emptied
  split
  · rename_i hblank
    rw [quotedLine, quotedLine, if_pos hblank]
    rfl
  · rfl

/-- A callout shows the lines that its content is carried as. -/
theorem render_eq_carried (hkind : register.kinds.get? name = none) (content : Text)
    (number? title? : Option Text) :
    render register name content number? title? =
      unlines (headLine (nameFor name) title? ::
        ((carried content).map quotedLine ++ [[], []])) := by
  obtain ⟨first, rest, hlines⟩ : ∃ first rest, lines (strip content) = first :: rest :=
    List.exists_cons_of_ne_nil (Text.splitOn_ne_nil '\n' (strip content))
  have hrest : (rest.map emptied).map quotedLine = rest.map quotedLine := by
    rw [List.map_map]
    exact List.map_congr_left fun l _ => quotedLine_emptied l
  rw [render_eq_of_undeclared hkind hlines, carried, hlines]
  simp only [List.map_cons, hrest]

theorem carried_enclosed (t : Text) : carried (enclosed (strip t)) = carried t := by
  unfold carried
  rw [strip_enclosed]

/-- What a callout does not keep of its lines are the margins of the whole, the blanks behind the
    first line, and the blanks on lines with nothing else. -/
theorem carried_unlines {first : Text} {rest : List Text} (hfeed : ∀ l ∈ first :: rest, '\n' ∉ l)
    (hstrip : strip (unlines (first :: rest)) = unlines (first :: rest))
    (hfirst : stripEnd first = first) (hrest : ∀ l ∈ rest, isBlankText l → l = []) :
    carried (unlines (first :: rest)) = first :: rest := by
  have hwritten : ∀ l ∈ rest, emptied l = l := by
    intro l hl
    unfold emptied
    split
    · rename_i hblank
      exact (hrest l hl hblank).symm
    · rfl
  rw [carried, hstrip, Text.lines_unlines hfeed]
  simp only
  rw [hfirst, List.map_congr_left hwritten, List.map_id']

theorem bodyOf_eq_map (hquoted : ∀ q ∈ quoted, isQuoted q)
    (hlead : ∀ q ∈ quoted.head?, leadNumber? (unquoted q) = none) :
    bodyOf quoted = quoted.map unquoted := by
  rw [bodyOf, List.takeWhile_eq_self_iff.mpr hquoted]
  cases quoted with
  | nil => rfl
  | cons q qs =>
    simp only [List.map_cons, dropLeadIn, hlead q rfl]

theorem isQuoted_of_not_mem {line : Text} (h : '>' ∉ line) : isQuoted line = false := by
  cases line with
  | nil => rfl
  | cons c t =>
    have hc : c ≠ '>' := fun hc => h (hc ▸ List.mem_cons_self)
    simpa [isQuoted] using hc

theorem headLine_titled (hname : name ∈ defaultNames) (htitle : title ≠ []) :
    headLine (nameFor name) (some title) = "> [!" ++ name ++ "] " ++ strip title := by
  have hfilled : title.isEmpty = false := by simpa using htitle
  rw [nameFor_of_mem hname]
  simp [headLine, hfilled]

theorem theoremHead?_titled (hname : name ∈ defaultNames) (title : Text) :
    theoremHead? ("> [!" ++ name ++ "] " ++ title) =
      some (name, title.dropWhile Text.isLineBlank) := by
  obtain ⟨hne, hletters⟩ := nameFor_spec name
  rw [nameFor_of_mem hname] at hne hletters
  have hmark : IsMark name ("> [!" ++ name ++ "]") :=
    ⟨[' '], .inr ⟨' ', rfl, rfl⟩, hne, hletters, rfl⟩
  have hread := head?_mark hmark (' ' :: title)
  have hline : ("> [!" ++ name ++ "] " ++ title : Text) =
      "> [!" ++ name ++ "]" ++ ' ' :: title := by
    simp
  rw [hline]
  exact theoremHead?_of_head? hname hread

theorem strip_dropWhile_isLineBlank (t : Text) :
    strip (t.dropWhile Text.isLineBlank) = strip t := by
  induction t with
  | nil => rfl
  | cons c t ih =>
    by_cases hc : Text.isLineBlank c
    · rw [List.dropWhile_cons_of_pos hc, ih, Text.strip_cons_blank (isBlank_of_isLineBlank hc)]
    · rw [List.dropWhile_cons_of_neg hc]

/-- **A callout is read as it was written** if there is no quotation in its body, and the body
    does not lead in. -/
theorem toEnvironments_mark (hname : name ∈ defaultNames) (htitle : isBlankText title = false)
    (hfeed : '\n' ∉ title)
    (hquoted : ∀ q ∈ quoted, isQuoted q ∧ '\n' ∉ q ∧ '>' ∉ unquoted q)
    (hlead : ∀ q ∈ quoted.head?, leadNumber? (unquoted q) = none) :
    toEnvironments (unlines (("> [!" ++ name ++ "] " ++ title) :: quoted)) =
      titled name (strip title) (enclosed (strip (unlines (quoted.map unquoted)))) := by
  have hbody := bodyOf_eq_map (fun q hq => (hquoted q hq).1) hlead
  have hshown := strip_dropWhile_isLineBlank title
  have hmark : '\n' ∉ "> [!" ++ name ++ "] " ++ title := by
    have hletters : ∀ name ∈ defaultNames, '\n' ∉ name := by decide
    simp [hletters name hname, hfeed]
  have hheads : ∀ l ∈ bodyOf quoted, theoremHead? l = none := by
    intro l hl
    rw [hbody] at hl
    obtain ⟨q, hq, rfl⟩ := List.mem_map.mp hl
    exact theoremHead?_of_unquoted (isQuoted_of_not_mem (hquoted q hq).2.2)
  have hread := toEnvironments_titled (theoremHead?_titled hname title)
    (hshown ▸ Text.strip_ne_nil htitle)
    (List.forall_mem_cons.mpr ⟨hmark, fun q hq => (hquoted q hq).2.1⟩)
    (fun q hq => (hquoted q hq).1) hheads
  rwa [hshown, hbody] at hread

end Callout

namespace Environment

open Callout (carried quotedLine unquoted isQuoted leadNumber? theoremHead?)
open Text (unlines strip stripEnd isBlankText)

/-- **Titles come back.**  A callout with a title, read as an environment and converted again, is
    the callout of the same name, with its title and its body trimmed: if no theorem of the name is
    declared, if the brackets of the title are balanced, if no commands are written in it, and if
    the body has no further quotation in it and does not lead in.  A body that has nothing to trim
    comes back as it is. -/
theorem callout_of_titled (settings : Settings) (register : TheoremRegister) (equations : Nat)
    {name title : Text} {quoted : List Text} (hname : name ∈ Callout.defaultNames)
    (hkind : register.kinds.get? name = none) (hconverter : settings.converters.get? name = none)
    (htitle : isBlankText title = false ∧ '\n' ∉ title ∧ '\\' ∉ title)
    (hbalanced : Group.Balanced '[' ']' title)
    (hquoted : ∀ q ∈ quoted, isQuoted q ∧ '\n' ∉ q ∧ '\\' ∉ unquoted q ∧ '>' ∉ unquoted q)
    (hlead : ∀ q ∈ quoted.head?, leadNumber? (unquoted q) = none) :
    let mark : Text := "> [!" ++ name ++ "] "
    let body := quoted.map unquoted
    resolve settings register equations
        (Callout.toEnvironments (unlines ((mark ++ title) :: quoted))) =
      pure ⟨unlines ((mark ++ strip title) ::
        ((carried (unlines body)).map quotedLine ++ [[], []])), register, equations⟩ ∧
    (∀ first rest, body = first :: rest → strip (unlines body) = unlines body →
      stripEnd first = first → (∀ l ∈ rest, isBlankText l → l = []) →
      carried (unlines body) = body) := by
  intro mark body
  constructor
  · have hread := Callout.toEnvironments_mark hname htitle.1 htitle.2.1
      (fun q hq => ⟨(hquoted q hq).1, (hquoted q hq).2.1, (hquoted q hq).2.2.2⟩) hlead
    have hescape : '\\' ∉ strip title := fun hmem => htitle.2.2 (Text.mem_of_mem_strip hmem)
    have hbrackets : Group.Balanced '[' ']' (strip title) := hbalanced.strip (by decide) (by decide)
    have hbody : '\\' ∉ unlines body := by
      apply Text.not_mem_unlines (by decide)
      intro l hl
      obtain ⟨q, hq, rfl⟩ := List.mem_map.mp hl
      exact (hquoted q hq).2.2.1
    have hcontent : '\\' ∉ Callout.enclosed (strip (unlines body)) :=
      Callout.not_mem_enclosed (by decide) fun hmem => hbody (Text.mem_of_mem_strip hmem)
    rw [hread, resolve_titled equations hname hkind hconverter hescape hbrackets hcontent,
      Callout.render_eq_carried hkind, Callout.carried_enclosed,
      Callout.headLine_titled hname (Text.strip_ne_nil htitle.1), Text.strip_strip]
  · intro first rest hsplit hstrip hfirst hrest
    have hfeed : ∀ l ∈ body, '\n' ∉ l := by
      intro l hl hmem
      obtain ⟨q, hq, rfl⟩ := List.mem_map.mp hl
      exact (hquoted q hq).2.1 ((Callout.unquoted_suffix q).subset hmem)
    rw [hsplit] at hfeed hstrip ⊢
    exact Callout.carried_unlines hfeed hstrip hfirst hrest

/-- A title with brackets in it, and a body with an empty line. -/
theorem callout_of_titled_brackets :
    (resolve numberingSettings .empty 0 (Callout.toEnvironments
        "> [!lemma]  On [b[c]]. \n>x [d\n>\n> y")).result =
      .ok ⟨"> [!lemma] On [b[c]].\n> x [d\n>\n> y\n\n", .empty, 0⟩ := by
  have hname : ("lemma" : Text) ∈ Callout.defaultNames := by decide
  have hkind : TheoremRegister.empty.kinds.get? "lemma" = none := rfl
  have hconverter : numberingSettings.converters.get? "lemma" = none := by decide
  have htitle : isBlankText " On [b[c]]. " = false ∧ '\n' ∉ (" On [b[c]]. " : Text) ∧
      '\\' ∉ (" On [b[c]]. " : Text) := by decide
  have hquoted : ∀ q ∈ ([">x [d", ">", "> y"] : List Text),
      isQuoted q ∧ '\n' ∉ q ∧ '\\' ∉ unquoted q ∧ '>' ∉ unquoted q := by decide
  obtain ⟨hresult, hkept⟩ := callout_of_titled numberingSettings .empty 0 hname hkind hconverter
    htitle (by decide) hquoted (by decide)
  rw [hkept "x [d" ["", "y"] rfl (by decide) (by decide) (by decide)] at hresult
  exact congrArg Noted.result hresult

/-- **What does not come back.**  A bracket that closes nothing ends the title in front of it, and
    the empty lines at the head of a body are gone. -/
theorem title_of_unbalanced :
    let cut : Text := "> [!lemma] a\n> b]\n> x\n\n"
    let trimmed : Text := "> [!lemma] t\n> x\n\n"
    (resolve numberingSettings .empty 0 (Callout.toEnvironments "> [!lemma] a] b\n> x")).result =
        .ok ⟨cut, .empty, 0⟩ ∧
      cut ≠ "> [!lemma] a] b\n> x\n\n" ∧
    (resolve numberingSettings .empty 0 (Callout.toEnvironments "> [!lemma] t\n>\n> x")).result =
        .ok ⟨trimmed, .empty, 0⟩ ∧
      trimmed ≠ "> [!lemma] t\n>\n> x\n\n" := by
  intro cut trimmed
  have hcut : Callout.toEnvironments "> [!lemma] a] b\n> x" =
      titled "lemma" "a] b" (Callout.enclosed "x") := by
    have hhead : theoremHead? "> [!lemma] a] b" = some (("lemma" : Text), "a] b".toList) := by
      decide
    have hfeed : ∀ l ∈ (["> [!lemma] a] b", "> x"] : List Text), '\n' ∉ l := by decide
    exact Callout.toEnvironments_titled hhead (by decide) hfeed (by decide) (by decide)
  have htrimmed : Callout.toEnvironments "> [!lemma] t\n>\n> x" =
      titled "lemma" "t" (Callout.enclosed "x") := by
    have hhead : theoremHead? "> [!lemma] t" = some (("lemma" : Text), "t".toList) := by decide
    have hfeed : ∀ l ∈ (["> [!lemma] t", ">", "> x"] : List Text), '\n' ∉ l := by decide
    exact Callout.toEnvironments_titled hhead (by decide) hfeed (by decide) (by decide)
  refine ⟨?_, by decide, ?_, by decide⟩
  · rw [hcut, resolve_eq_run]
    rfl
  · rw [htrimmed, resolve_eq_run]
    rfl

end Environment

end TexMark
