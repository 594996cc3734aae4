/-
  TexMark/Proofs/Label/Callouts.lean
  ==================================
  **Labels of numbered theorems.**  A label at the beginning of an instance is recorded with the
  number that the instance shows, whatever stands in front of the callout
  (`recorded_of_render`).  Two scans have to find their way to the label:

    * the markers in front of it.  A marker ends with a brace, or lies on one line, or is the
      head of a callout with the line below it (`marker_spec`).  None of them goes on over the
      empty line in front of a callout into its head (`border_marker`), so that the scan finds
      the head, and its number is the one that was written (`callout?_seen`);
    * the labels.  None begins before another one and covers its name
      (`Scan.FlatCommand.border`).
-/
import TexMark.Proofs.Label.Numbers
import TexMark.Proofs.Scans
import TexMark.Proofs.Theorem.LeadIn
import Mathlib.Data.Bool.AllAny

namespace TexMark.Label

open Text (Behind isLineBlank strip)
open Callout (IsHeading IsNumber headLine leadIn nameFor shownTitle)

/-! ### What a marker takes -/

theorem brace_suffix_of_bracedOneOf? {names : List Text} {t name rest : Text}
    (h : bracedOneOf? names t = some (name, rest)) : '}' :: rest <:+ t := by
  simp only [bracedOneOf?, Option.bind_eq_bind, Option.pure_def, Option.bind_eq_some_iff,
    Option.some.injEq, Prod.mk.injEq, Markup.char?_eq_some_iff] at h
  obtain ⟨opened, hopened, ⟨name', afterName⟩, hname, after, hclosed, -, rfl⟩ := h
  obtain ⟨name'', -, hdrop⟩ := List.exists_of_findSome?_eq_some hname
  obtain ⟨after', hdrop, heq⟩ := Option.map_eq_some_iff.mp hdrop
  cases heq
  rw [← hclosed]
  calc (Markup.star afterName).2 <:+ afterName := Markup.star_suffix _
    _ <:+ opened := by
      rw [Text.dropPrefix?_eq_some_iff.mp hdrop]
      exact List.suffix_append _ _
    _ <:+ Text.skipBlanks t := by
      rw [hopened]
      exact List.suffix_cons _ _
    _ <:+ t := Text.skipBlanks_suffix t

theorem brace_suffix_of_heading? {t title rest : Text} (h : heading? t = some (title, rest)) :
    '}' :: rest <:+ t := by
  simp only [heading?, Option.bind_eq_bind, Option.bind_eq_some_iff] at h
  obtain ⟨⟨name, afterName⟩, hname, htitle⟩ := h
  have hstar := Markup.star_suffix afterName
  refine (Markup.brace_suffix_of_flatBraces? htitle).trans ((Text.skipBlanks_suffix _).trans ?_)
  split
  · rename_i hshort
    exact (Markup.flatBrackets?_behind hshort).1.trans
      ((Text.skipBlanks_suffix _).trans (hstar.trans (Markup.oneOf?_behind hname).1))
  · exact hstar.trans (Markup.oneOf?_behind hname).1

/-- What follows the blank that may stand behind a quote marker. -/
def unspaced (t : Text) : Text :=
  match t with
  | c :: rest => if isLineBlank c then rest else t
  | [] => []

theorem exists_unspaced (t : Text) : ∃ gap, t = gap ++ unspaced t ∧ ∀ c ∈ gap, isLineBlank c := by
  cases t with
  | nil => exact ⟨[], rfl, nofun⟩
  | cons c t =>
    by_cases hc : isLineBlank c
    · exact ⟨[c], by simp [unspaced, hc], by simpa using hc⟩
    · exact ⟨[], by simp [unspaced, hc], nofun⟩

/-- The head of a callout is taken with its line, the line feed, and a piece of the line
    below: a quote marker and characters of which none is a backslash. -/
theorem callout?_spec {t rest : Text} {m : Marker} (h : callout? t = some (m, rest)) :
    t.head? = some '>' ∧ (∃ name title number?, m = .callout name title number?) ∧
      ∃ line below, t = line ++ '\n' :: '>' :: (below ++ rest) ∧ '\n' ∉ line ∧
        '\n' ∉ below ∧ '\\' ∉ below := by
  simp only [callout?, Option.bind_eq_bind, Option.bind_eq_some_iff, Markup.run,
    Markup.char?_eq_some_iff] at h
  obtain ⟨⟨name, title⟩, hhead, quoted, hfeed, body, rfl, hrest⟩ := h
  obtain ⟨gap, hgap, hblank⟩ := exists_unspaced body
  have hgapFeed : '\n' ∉ gap := fun hmem => absurd (hblank _ hmem) (by decide)
  have hgapCommand : '\\' ∉ gap := fun hmem => absurd (hblank _ hmem) (by decide)
  have hbody : (∃ name title number?, m = .callout name title number?) ∧
      ∃ below, body = below ++ rest ∧ '\n' ∉ below ∧ '\\' ∉ below := by
    split at hrest
    · rename_i number after hnumber
      cases hrest
      obtain ⟨heading, hheading, hnumber, hlead, -⟩ := Callout.leadNumber?_eq_some_iff.mp hnumber
      have hfeed' := Callout.not_mem_heading_number hheading hnumber (c := '\n') (by decide)
        (by decide) (by decide) (by decide)
      have hcommand := Callout.not_mem_heading_number hheading hnumber (c := '\\') (by decide)
        (by decide) (by decide) (by decide)
      refine ⟨⟨_, _, _, rfl⟩, gap ++ (heading ++ ' ' :: (number ++ ['.'])), ?_, ?_, ?_⟩
      · rw [hgap, show unspaced body = _ from hlead]
        simp
      · simp [hgapFeed, hfeed']
      · simp [hgapCommand, hcommand]
    · cases hrest
      exact ⟨⟨_, _, _, rfl⟩, gap, hgap, hgapFeed, hgapCommand⟩
  obtain ⟨hcallout, below, rfl, hbelow⟩ := hbody
  obtain ⟨hmark, line, hline, hnoFeed⟩ := Callout.takenFromLine_head? hhead
  refine ⟨hmark, hcallout, line ++ title.takeWhile (· != '\n'), below, ?_, ?_, hbelow⟩
  · rw [← hfeed, List.append_assoc, List.takeWhile_append_dropWhile, hline]
  · intro hmem
    rcases List.mem_append.mp hmem with hmem | hmem
    · exact hnoFeed hmem
    · simpa using List.mem_takeWhile_imp hmem

/-- **What a marker takes**: it ends with a brace, or lies on one line, or is the head of a
    callout. -/
theorem marker_spec {before t after : Text} {m : Marker} (h : marker before t = some (m, after)) :
    ∃ taken, t = taken ++ after ∧ taken ≠ [] ∧ (taken.getLast? = some '}' ∨ '\n' ∉ taken ∨
      (t.head? = some '>' ∧ taken.count '\n' = 1)) := by
  have hbrace : '}' :: after <:+ t → ∃ taken, t = taken ++ after ∧ taken ≠ [] ∧
      (taken.getLast? = some '}' ∨ '\n' ∉ taken ∨
        (t.head? = some '>' ∧ taken.count '\n' = 1)) := by
    rintro ⟨u, rfl⟩
    exact ⟨u ++ ['}'], by simp, by simp, .inl (by simp)⟩
  have hfront : ∀ {front}, t = front ++ after → front ≠ [] → '\n' ∉ front →
      ∃ taken, t = taken ++ after ∧ taken ≠ [] ∧ (taken.getLast? = some '}' ∨ '\n' ∉ taken ∨
        (t.head? = some '>' ∧ taken.count '\n' = 1)) :=
    fun ht hne hfeed => ⟨_, ht, hne, .inr (.inl hfeed)⟩
  have hcommand : ∀ {name names t' r}, Markup.command? name t = some t' →
      bracedOneOf? names t' = some (r, after) → '}' :: after <:+ t :=
    fun ht hname => (brace_suffix_of_bracedOneOf? hname).trans (Markup.command?_behind ht).1
  simp only [marker, Option.orElse_eq_orElse, Option.orElse_eq_or, Option.or_eq_some_iff,
    Option.map_eq_some_iff, Option.bind_eq_some_iff, Prod.mk.injEq] at h
  rcases h with ⟨⟨name, after'⟩, ⟨t', ht', hname⟩, -, rfl⟩ |
    ⟨-, ⟨⟨name, after'⟩, ⟨t', ht', hname⟩, -, rfl⟩ | ⟨-, ⟨⟨title, after'⟩, htitle, -, rfl⟩ |
      ⟨-, ⟨after', hdollars, -, rfl⟩ | ⟨-, ⟨after', hbracket, -, rfl⟩ |
        ⟨-, ⟨⟨name, after'⟩, ⟨t', ht', hname⟩, -, rfl⟩ | ⟨-, hcallout⟩⟩⟩⟩⟩⟩
  · exact hbrace (hcommand ht' hname)
  · exact hbrace (hcommand ht' hname)
  · exact hbrace (brace_suffix_of_heading? htitle)
  · exact hfront (Text.dropPrefix?_eq_some_iff.mp hdollars) (by decide) (by decide)
  · exact hfront (Text.dropPrefix?_eq_some_iff.mp hbracket) (by decide) (by decide)
  · exact hbrace (hcommand ht' hname)
  · split at hcallout
    · obtain ⟨hmark, -, line, below, ht, hline, hbelow, -⟩ := callout?_spec hcallout
      refine ⟨line ++ '\n' :: '>' :: below, by simp [ht], by simp, .inr (.inr ⟨hmark, ?_⟩)⟩
      rw [List.count_append, List.count_cons_self, List.count_eq_zero.mpr hline,
        List.count_cons_of_ne (by decide), List.count_eq_zero.mpr hbelow]
    · cases hcallout

theorem advances_marker : Scan.Advances marker := by
  intro before t m after h
  obtain ⟨taken, rfl, hne, -⟩ := marker_spec h
  have := List.length_pos_of_ne_nil hne
  exact ⟨List.suffix_append taken after, by rw [List.length_append]; omega⟩

/-! ### The marker in front of a label -/

/-- The text in front of a callout: nothing, or text that ends with an empty line. -/
def EndsBlock (pre : Text) : Prop := pre = [] ∨ ['\n', '\n'] <:+ pre

/-- **No marker goes on over an empty line**, unless a closing brace follows there. -/
theorem border_marker {pre front : Text} (hpre : EndsBlock pre) (hfront : '}' ∉ front)
    {before v after : Text} {m : Marker} (hv : v <:+ pre) (hne : v ≠ [])
    (h : marker before (v ++ front) = some (m, after)) : front <:+ after := by
  have hends : v = ['\n'] ∨ ['\n', '\n'] <:+ v := by
    rcases hpre with rfl | hpre
    · exact absurd (List.suffix_nil.mp hv) hne
    · rcases List.suffix_or_suffix_of_suffix hv hpre with hv' | hv'
      · rcases List.suffix_cons_iff.mp hv' with rfl | hv'
        · exact .inr (List.suffix_refl _)
        · rcases List.suffix_cons_iff.mp hv' with rfl | hv'
          · exact .inl rfl
          · exact absurd (List.suffix_nil.mp hv') hne
      · exact .inr hv'
  obtain ⟨taken, ht, -, hshape⟩ := marker_spec h
  rcases List.append_eq_append_iff.mp ht with ⟨extra, rfl, rfl⟩ | ⟨short, rfl, rfl⟩
  · by_cases hextra : extra = []
    · subst hextra
      exact List.suffix_refl _
    · rcases hshape with hbrace | hline | ⟨hmark, hcount⟩
      · -- the brace lies behind the border
        rw [List.getLast?_append_of_ne_nil _ hextra] at hbrace
        exact absurd (List.mem_append_left after (List.mem_of_getLast? hbrace)) hfront
      · rcases hends with rfl | ⟨w, rfl⟩ <;> simp at hline
      · rcases hends with rfl | ⟨w, rfl⟩
        · cases hmark
        · simp only [List.count_append, List.count_cons_self, List.count_nil] at hcount
          omega
  · exact List.suffix_append short front

/-- A callout up to the end of its lead-in. -/
def opening (environment heading number : Text) (title? : Option Text) : Text :=
  headLine (nameFor environment) title? ++ '\n' :: '>' :: ' ' :: leadIn heading (some number)

section

variable {heading number : Text} {title? : Option Text} (environment : Text)

theorem not_mem_opening (hheading : IsHeading heading) (hnumber : IsNumber number) {c : Char}
    (hc : c = '{' ∨ c = '}') (htitle : c ∉ shownTitle title?) :
    c ∉ opening environment heading number title? := by
  have hhead : c ∉ headLine (nameFor environment) title? := by
    rcases hc with rfl | rfl <;>
      exact Callout.not_mem_headLine environment (by decide) (by decide) htitle
  have hlead : c ∉ leadIn heading (some number) := by
    rcases hc with rfl | rfl <;>
      exact Callout.not_mem_leadIn hheading hnumber (by decide) (by decide) (by decide) (by decide)
  have hother : c ≠ '\n' ∧ c ≠ '>' ∧ c ≠ ' ' := by
    rcases hc with rfl | rfl <;> decide
  simp [opening, hhead, hlead, hother.1, hother.2.1, hother.2.2]

/-- At the beginning of a line a quote marker begins a callout or nothing. -/
theorem marker_of_quote {before : Text} (hbefore : Scan.atLineStart before) (t : Text) :
    marker before ('>' :: t) = callout? ('>' :: t) := by
  unfold marker
  rw [if_pos hbefore]
  rfl

theorem marker_blank {before : Text} : marker before [' '] = none := by
  unfold marker
  split <;> rfl

/-- The number of a callout is read in front of what follows its lead-in. -/
theorem marker_opening (hheading : IsHeading heading) (hnumber : IsNumber number)
    (htitle : '\n' ∉ shownTitle title?) {before : Text} (hbefore : Scan.atLineStart before) :
    marker before (opening environment heading number title?) =
      some (.callout (nameFor environment) (shownTitle title?) (some number), [' ']) := by
  have hhead : Callout.head? (opening environment heading number title?) = some (nameFor environment,
      shownTitle title? ++ '\n' :: '>' :: ' ' :: leadIn heading (some number)) :=
    Callout.head?_headLine environment title? (by simp)
  have hquote : ∃ t, opening environment heading number title? = '>' :: t := by
    have hmark := (Callout.takenFromLine_head? hhead).1
    cases ht : opening environment heading number title? with
    | nil =>
      rw [ht] at hmark
      cases hmark
    | cons c t =>
      rw [ht] at hmark
      cases hmark
      exact ⟨t, rfl⟩
  have hline : ∀ c ∈ shownTitle title?, (c != '\n') = true := by
    intro c hc
    have hne : c ≠ '\n' := by
      rintro rfl
      exact htitle hc
    simpa using hne
  have hlead : Callout.leadNumber? (leadIn heading (some number)) = some (number, [' ']) := by
    have hread := Callout.leadNumber?_leadIn hheading hnumber []
    rwa [List.append_nil] at hread
  obtain ⟨t, ht⟩ := hquote
  have hmarker := marker_of_quote hbefore t
  rw [← ht] at hmarker
  rw [hmarker]
  simp [callout?, hhead, Markup.run, Markup.char?, List.takeWhile_append_of_pos hline,
    List.dropWhile_append_of_pos hline, isLineBlank, hlead]

theorem nearest?_opening (hheading : IsHeading heading) (hnumber : IsNumber number)
    (htitle : '\n' ∉ shownTitle title?) (hbrace : '}' ∉ shownTitle title?) {pre : Text}
    (hpre : EndsBlock pre)
    (hwindow : (opening environment heading number title?).length ≤ window) (rest : Text) :
    nearest? (pre ++ opening environment heading number title? ++ rest)
        (pre ++ opening environment heading number title?).length =
      some (.callout (nameFor environment) (shownTitle title?) (some number)) := by
  have hnoBrace := not_mem_opening environment hheading hnumber (.inr rfl) hbrace
  have hopening := fun {before : Text} (h : Scan.atLineStart before) =>
    marker_opening environment hheading hnumber htitle h
  generalize opening environment heading number title? = front at hwindow hnoBrace hopening
  generalize hstart : (pre ++ front).length - window = start
  have hle : start ≤ pre.length := by
    rw [List.length_append] at hstart
    omega
  have hpieces : (pre.drop start).reverse ++ (pre.take start).reverse = pre.reverse := by
    rw [← List.reverse_append, List.take_append_drop]
  have hborder : ∀ u v value after, pre.drop start = u ++ v → v ≠ [] →
      marker (u.reverse ++ (pre.take start).reverse) (v ++ front) = some (value, after) →
      front <:+ after := by
    intro u v value after huv hne h
    refine border_marker hpre hnoBrace ⟨pre.take start ++ u, ?_⟩ hne h
    rw [List.append_assoc, ← huv, List.take_append_drop]
  obtain ⟨hs, -, hhits⟩ := Scan.hitsFrom_append advances_marker start _ _ _ hborder
  have hlineStart : Scan.atLineStart pre.reverse := by
    rcases hpre with rfl | ⟨w, rfl⟩
    · rfl
    · simp [Scan.atLineStart]
  have hread := hopening hlineStart
  obtain ⟨taken, rfl, hne, -⟩ := marker_spec hread
  rw [hpieces, Scan.hitsFrom_of_some _ hne hread, Scan.hitsFrom_of_none marker_blank] at hhits
  unfold nearest?
  simp only [hstart, List.take_left, List.take_append_of_le_length hle,
    List.drop_append_of_le_length hle, hhits]
  simp [Scan.hitsFrom]

end

/-! ### The label itself -/

theorem command_braced (before : Text) {value : Text} (hvalue : ∀ c ∈ value, c ≠ '{' ∧ c ≠ '}')
    (after : Text) :
    command before ("\\label".toList ++ '{' :: (value ++ '}' :: after)) = some (value, after) := by
  have hname : Markup.command? "label" ("\\label".toList ++ '{' :: (value ++ '}' :: after)) =
      some ('{' :: (value ++ '}' :: after)) := Text.dropPrefix?_eq_some_iff.mpr rfl
  have hblank : Text.skipBlanks ('{' :: (value ++ '}' :: after)) =
      '{' :: (value ++ '}' :: after) := List.dropWhile_cons_of_neg (by decide)
  rw [command, hname, Option.bind_some, hblank]
  exact Markup.flatBraces?_eq_some_iff.mpr ⟨rfl, hvalue⟩

/-- A label is found wherever it is written. -/
theorem exists_hits_label (front : Text) {value : Text} (hvalue : ∀ c ∈ value, c ≠ '{' ∧ c ≠ '}')
    (after : Text) : ∃ earlier h later,
      Scan.hits command (front ++ ("\\label".toList ++ '{' :: (value ++ '}' :: after))) =
        earlier ++ h :: later ∧ h.start = front.length ∧ h.value = value := by
  obtain ⟨earlier, -, hhits⟩ := Scan.hitsFrom_append flatCommand_command.advances 0 [] front
    ("\\label".toList ++ '{' :: (value ++ '}' :: after))
    fun _ _ _ _ _ hne h =>
      flatCommand_command.border (List.all_iff_forall_prop.mp (by decide)) hne h
  have hlabel : "\\label".toList ++ '{' :: (value ++ '}' :: after) =
      ("\\label".toList ++ '{' :: (value ++ ['}'])) ++ after := by simp
  have hread := command_braced (front.reverse ++ []) hvalue after
  rw [hlabel] at hread hhits
  rw [Scan.hitsFrom_of_some _ (by simp) hread, Nat.zero_add] at hhits
  rw [hlabel]
  exact ⟨earlier, _, _, hhits, rfl, rfl⟩

/-! ### A label at the beginning of an instance -/

def isBrace (c : Char) : Bool := c == '{' || c == '}'

theorem isBrace_eq_false {c : Char} : isBrace c = false ↔ c ≠ '{' ∧ c ≠ '}' := by
  simp [isBrace]

theorem filter_isBrace_stripEnd (t : Text) :
    (Text.stripEnd t).filter isBrace = t.filter isBrace := by
  obtain ⟨v, hv, hblank⟩ := Text.exists_stripEnd t
  have hnone : v.filter isBrace = [] := by
    apply List.filter_eq_nil_iff.mpr
    intro c hc hbrace
    have hc' := hblank c hc
    have hcases : c = '{' ∨ c = '}' := by simpa [isBrace] using hbrace
    rcases hcases with rfl | rfl
    · revert hc'
      decide
    · revert hc'
      decide
  conv_rhs => rw [hv, List.filter_append, hnone, List.append_nil]

theorem filter_isBrace_quotedLine (t : Text) :
    (Callout.quotedLine t).filter isBrace = t.filter isBrace := by
  unfold Callout.quotedLine
  split
  · rename_i hblank
    have hstrip := filter_isBrace_stripEnd t
    have hnil : Text.stripEnd t = [] :=
      List.rdropWhile_eq_nil_iff.mpr fun c hc => List.all_eq_true.mp hblank c hc
    rw [← hstrip, hnil]
    rfl
  · rfl

/-- Quoting the lines of a text leaves its braces where they are. -/
theorem filter_isBrace_quoted (first : Text) (rest : List Text) :
    (Text.stripEnd first ++ (rest.map Callout.quotedLine).flatMap ('\n' :: ·)).filter isBrace =
      (Text.unlines (first :: rest)).filter isBrace := by
  rw [Text.unlines_cons, List.filter_append, List.filter_append, filter_isBrace_stripEnd]
  congr 1
  induction rest with
  | nil => rfl
  | cons l rest ih =>
    simp only [List.map_cons, List.flatMap_cons, List.filter_append, ih]
    congr 1
    change (Callout.quotedLine l).filter isBrace = l.filter isBrace
    exact filter_isBrace_quotedLine l

/-- A label at the head of the content of a callout, without the blanks at its end. -/
theorem strip_label (l rest : Text) :
    strip ("\\label".toList ++ Text.braced l ++ rest) =
      "\\label".toList ++ ['{'] ++ (l ++ '}' :: Text.stripEnd rest) := by
  have hfront : ("\\label".toList ++ Text.braced l ++ rest).dropWhile Text.isBlank =
      "\\label".toList ++ ['{'] ++ l ++ '}' :: rest := by
    have hbackslash : Text.isBlank '\\' = false := by decide
    simp [Text.braced, hbackslash]
  have htrim := Text.stripEnd_append_cons ("\\label".toList ++ ['{'] ++ l) (c := '}') (by decide)
    rest
  rw [Text.strip_eq, hfront]
  exact htrim.trans (List.append_assoc _ _ _)

/-- What a callout shows of a line of its content behind the brace of a label, and of the lines
    below it. -/
def shownBehind (first : Text) (lines : List Text) : Text :=
  Text.stripEnd first ++ ((lines.map Callout.quotedLine).flatMap ('\n' :: ·) ++ ['\n', '\n'])

/-- A callout whose content begins with a label shows it behind its lead-in. -/
theorem render_label {register : TheoremRegister} {kind : TheoremKind} {environment l : Text}
    (hkind : register.kinds.get? environment = some kind) {rest first : Text} {lines : List Text}
    (hlines : Text.lines (l ++ '}' :: Text.stripEnd rest) = first :: lines)
    (number : Text) (title? : Option Text) :
    Callout.render register environment ("\\label".toList ++ Text.braced l ++ rest) (some number)
        title? = opening environment kind.heading number title? ++
          ("\\label".toList ++ '{' :: shownBehind first lines) := by
  have hcontent : Text.lines (strip ("\\label".toList ++ Text.braced l ++ rest)) =
      ("\\label".toList ++ ['{'] ++ first) :: lines := by
    rw [strip_label]
    exact Text.lines_append_left (by decide) hlines
  have hfirst : Text.stripEnd
      (leadIn kind.heading (some number) ++ ("\\label".toList ++ ['{'] ++ first)) =
      leadIn kind.heading (some number) ++ ("\\label".toList ++ '{' :: Text.stripEnd first) := by
    have htrim := Text.stripEnd_append_cons
      (leadIn kind.heading (some number) ++ "\\label".toList) (c := '{') (by decide) first
    simpa using htrim
  have hquoted : Callout.quotedLine
      (leadIn kind.heading (some number) ++ ("\\label".toList ++ '{' :: Text.stripEnd first)) =
      '>' :: ' ' ::
        (leadIn kind.heading (some number) ++ ("\\label".toList ++ '{' :: Text.stripEnd first)) := by
    have hbackslash : Text.isBlank '\\' = false := by decide
    exact if_neg (by simp [Text.isBlankText, hbackslash])
  rw [Callout.render_eq hkind hcontent, hfirst, List.map_cons, hquoted, Text.unlines_cons]
  simp [opening, shownBehind]

/-- The braces that a callout shows are those of its lines. -/
theorem filter_isBrace_shownBehind (first : Text) (lines : List Text) :
    (shownBehind first lines).filter isBrace = (Text.unlines (first :: lines)).filter isBrace := by
  rw [← filter_isBrace_quoted, shownBehind, ← List.append_assoc, List.filter_append _ ['\n', '\n']]
  exact List.append_nil _

/-- The first brace behind that of a label closes it. -/
theorem exists_value {l : Text} (hl : ∀ c ∈ l, c ≠ '{' ∧ c ≠ '}') {rest first : Text}
    {lines : List Text} (hlines : Text.lines (l ++ '}' :: Text.stripEnd rest) = first :: lines) :
    ∃ value after, shownBehind first lines = value ++ '}' :: after ∧
      ∀ c ∈ value, c ≠ '{' ∧ c ≠ '}' := by
  have hnone : l.filter isBrace = [] := by
    apply List.filter_eq_nil_iff.mpr
    intro c hc
    simpa using isBrace_eq_false.mpr (hl c hc)
  have hjoin : Text.unlines (first :: lines) = l ++ '}' :: Text.stripEnd rest := by
    rw [← hlines]
    exact Text.join_splitOn '\n' _
  have hbraces : (shownBehind first lines).filter isBrace =
      '}' :: (Text.stripEnd rest).filter isBrace := by
    rw [filter_isBrace_shownBehind, hjoin, List.filter_append, hnone]
    rfl
  obtain ⟨value, after, hshown, hvalue, -, -⟩ := List.filter_eq_cons_iff.mp hbraces
  exact ⟨value, after, hshown, fun c hc => isBrace_eq_false.mp (by simpa using hvalue c hc)⟩

/-- A label on one line is shown as it is. -/
theorem exists_shownBehind {l : Text} (hfeed : '\n' ∉ l) {rest first : Text} {lines : List Text}
    (hlines : Text.lines (l ++ '}' :: Text.stripEnd rest) = first :: lines) :
    ∃ after, shownBehind first lines = l ++ '}' :: after := by
  obtain ⟨behind, below, hbehind⟩ : ∃ behind below,
      Text.lines (Text.stripEnd rest) = behind :: below :=
    List.exists_cons_of_ne_nil (Text.splitOn_ne_nil '\n' _)
  have hfront : '\n' ∉ l ++ ['}'] := by simp [hfeed]
  have hsplit := Text.lines_append_left hfront hbehind
  rw [List.append_assoc, List.singleton_append, hlines] at hsplit
  obtain ⟨rfl, rfl⟩ := List.cons.inj hsplit
  have htrim : Text.stripEnd (l ++ ['}'] ++ behind) = l ++ '}' :: Text.stripEnd behind := by
    have := Text.stripEnd_append_cons l (c := '}') (by decide) behind
    simpa using this
  refine ⟨Text.stripEnd behind ++ ((lines.map Callout.quotedLine).flatMap ('\n' :: ·) ++
    ['\n', '\n']), ?_⟩
  rw [shownBehind, htrim, List.append_assoc, List.cons_append]

/-- A callout whose content begins with a label shows it, with a value up to the next brace. It is
    the value that was written, if that has no line feed. -/
theorem exists_render {register : TheoremRegister} {kind : TheoremKind} {environment l : Text}
    (hkind : register.kinds.get? environment = some kind) (hl : ∀ c ∈ l, c ≠ '{' ∧ c ≠ '}')
    (rest number : Text) (title? : Option Text) :
    ∃ value after, Callout.render register environment ("\\label".toList ++ Text.braced l ++ rest)
        (some number) title? = opening environment kind.heading number title? ++
          ("\\label".toList ++ '{' :: (value ++ '}' :: after)) ∧
      (∀ c ∈ value, c ≠ '{' ∧ c ≠ '}') ∧ ('\n' ∉ l → value = l) := by
  obtain ⟨first, lines, hlines⟩ : ∃ first lines,
      Text.lines (l ++ '}' :: Text.stripEnd rest) = first :: lines :=
    List.exists_cons_of_ne_nil (Text.splitOn_ne_nil '\n' _)
  have hrender := render_label hkind hlines number title?
  by_cases hfeed : '\n' ∈ l
  · obtain ⟨value, after, hshown, hvalue⟩ := exists_value hl hlines
    exact ⟨value, after, by rw [hrender, hshown], hvalue, fun h => absurd hfeed h⟩
  · obtain ⟨after, hshown⟩ := exists_shownBehind hfeed hlines
    exact ⟨l, after, by rw [hrender, hshown], hl, fun _ => rfl⟩

/-- What is recorded of a label at the beginning of an instance: the number and the title that
    the instance shows. -/
def recordIn (environment number : Text) (title? : Option Text) (label : Text) : Record :=
  ⟨label, .shown number, nameFor environment,
    if shownTitle title? = [] then none else some (shownTitle title?)⟩

theorem recordOf_of_callout {environment number text : Text} {title? : Option Text} {h : Hit Text}
    (hnearest : nearest? text h.start =
      some (.callout (nameFor environment) (shownTitle title?) (some number)))
    (base : Int) (earlier : List (Hit Text)) :
    recordOf base text earlier h = recordIn environment number title? (labelName h) := by
  have htitle : Text.isBlankText (shownTitle title?) = true ↔ shownTitle title? = [] := by
    constructor
    · intro hblank
      have htwice : strip (shownTitle title?) = shownTitle title? := Text.strip_strip _
      rw [← htwice, Text.strip_eq_nil hblank]
    · intro hnil
      rw [hnil]
      rfl
  have hname : strip (shownTitle title?) = shownTitle title? := Text.strip_strip _
  have hsubject : subjectOf (some (.callout (nameFor environment) (shownTitle title?) (some number))) =
      ⟨nameFor environment, if Text.isBlankText (shownTitle title?) then none
        else some (strip (shownTitle title?))⟩ := rfl
  unfold recordOf numberOf category classify
  rw [hnearest, hsubject]
  simp only [shownNumber?, htitle, hname, recordIn]

/-- **A label at the beginning of a numbered theorem takes the number of the theorem.**  The
    label is found behind whatever stands in front of the callout and is recorded with what the
    callout shows; that record stays unless a later label has the same name. -/
theorem recorded_of_render {register : TheoremRegister} {kind : TheoremKind}
    {environment number pre l rest text : Text} {title? : Option Text} (base : Int)
    (hkind : register.kinds.get? environment = some kind) (hheading : IsHeading kind.heading)
    (hnumber : IsNumber number)
    (htitle : ∀ t ∈ title?, ∀ c ∈ t, c ≠ '\n' ∧ c ≠ '{' ∧ c ≠ '}') (hpre : EndsBlock pre)
    (hl : ∀ c ∈ l, c ≠ '{' ∧ c ≠ '}')
    (hwindow : (opening environment kind.heading number title?).length ≤ window)
    (htext : text = pre ++ Callout.render register environment
      ("\\label".toList ++ Text.braced l ++ rest) (some number) title?) :
    ∃ earlier h later, Scan.hits command text = earlier ++ h :: later ∧
      h.start = (pre ++ opening environment kind.heading number title?).length ∧
      ('\n' ∉ l → h.value = l) ∧
      (∃ s, ((earlier ++ [h]).foldlM (collectHit base text) ⟨[], []⟩).result = .ok s ∧
        s.labels.get? (labelName h) = some (recordIn environment number title? (labelName h))) ∧
      ((∀ h' ∈ later, ¬ Scan.isEscaped text h'.start → labelName h' ≠ labelName h) →
        ∃ labels, (collect base text).result = .ok labels ∧
          labels.get? (labelName h) = some (recordIn environment number title? (labelName h))) := by
  have hshown : ∀ c ∈ shownTitle title?, c ≠ '\n' ∧ c ≠ '{' ∧ c ≠ '}' := by
    intro c hc
    cases title? with
    | none => cases hc
    | some t => exact htitle t rfl c (Text.mem_of_mem_strip hc)
  obtain ⟨value, after, hrender, hvalue, hsame⟩ :=
    exists_render hkind hl rest number title?
  rw [hrender, ← List.append_assoc] at htext
  have hnearest := nearest?_opening environment hheading hnumber (fun h => (hshown _ h).1 rfl)
    (fun h => (hshown _ h).2.2 rfl) hpre hwindow ("\\label".toList ++ '{' :: (value ++ '}' :: after))
  rw [← htext] at hnearest
  -- the label stands behind the blank of the lead-in
  have hescaped :
      ¬ Scan.isEscaped text (pre ++ opening environment kind.heading number title?).length := by
    rw [htext, Scan.isEscaped, List.take_left]
    simp [opening, leadIn, Scan.escapes]
  obtain ⟨earlier, h, later, hhits, hstart, hname⟩ :=
    exists_hits_label (pre ++ opening environment kind.heading number title?) hvalue after
  rw [← htext] at hhits
  rw [← hstart] at hnearest hescaped
  have hkept : (earlier ++ [h]).filter (fun h => !Scan.isEscaped text h.start) =
      earlier.filter (fun h => !Scan.isEscaped text h.start) ++ [h] := by
    simp [List.filter_append, hescaped]
  refine ⟨earlier, h, later, hhits, hstart, fun hl => hname.trans (hsame hl), ?_, ?_⟩
  · obtain ⟨s, hs, hnumbered⟩ := numbered_foldlM base text (earlier ++ [h])
    have hlast := hnumbered.last _ h [] hkept (by simp)
    rw [recordOf_of_callout hnearest] at hlast
    exact ⟨s, hs, hlast⟩
  · intro hlater
    obtain ⟨labels, hlabels⟩ := exists_result_collect base text
    have hfound : found text = earlier.filter (fun h => !Scan.isEscaped text h.start) ++
        h :: later.filter fun h => !Scan.isEscaped text h.start := by
      rw [found, hhits, List.filter_append, List.filter_cons_of_pos (by simp [hescaped])]
    have hlast := get?_collect hlabels hfound (by
      intro h' hh'
      obtain ⟨hmem, hunescaped⟩ := List.mem_filter.mp hh'
      exact hlater h' hmem (by simpa using hunescaped))
    rw [recordOf_of_callout hnearest] at hlast
    exact ⟨labels, hlabels, hlast⟩

/-- A label behind a formula, another label of its name and another callout; heading and title
    look like numbers and markers. -/
theorem recorded_of_render_step :
    ∃ (taken : List (Hit Text)) (s : Progress), (taken.foldlM (collectHit 1
        ("$$\n\\label{x}\n$$\n> [!note]\n> Claim 4. \\label\x7by\n\n".toList ++
          Callout.render (.declare .empty ⟨"lemma", "Step 3", 0, none, false, true⟩) "lemma"
            ("\\label".toList ++ Text.braced "x" ++ " 4. Let $$x$$.".toList) (some "1.2")
            (some " On $$ 5. \\label "))) ⟨[], []⟩).result = .ok s ∧
      s.labels.get? "x" = some ⟨"x", .shown "1.2", "lemma", some "On $$ 5. \\label"⟩ := by
  have hkind : (TheoremRegister.declare .empty
      ⟨"lemma", "Step 3", 0, none, false, true⟩).kinds.get? "lemma" =
        some ⟨"lemma", "Step 3", 0, none, false, true⟩ := rfl
  have hheading : IsHeading "Step 3" := by
    decide
  have hnumber : IsNumber "1.2" := by
    decide
  have htitle : ∀ t ∈ some (" On $$ 5. \\label " : Text), ∀ c ∈ t,
      c ≠ '\n' ∧ c ≠ '{' ∧ c ≠ '}' := by
    intro t ht
    cases ht
    exact List.all_iff_forall_prop.mp (by decide)
  have hpre : EndsBlock "$$\n\\label{x}\n$$\n> [!note]\n> Claim 4. \\label\x7by\n\n" :=
    .inr ⟨"$$\n\\label{x}\n$$\n> [!note]\n> Claim 4. \\label\x7by", rfl⟩
  have hl : ∀ c ∈ ("x" : Text), c ≠ '{' ∧ c ≠ '}' := List.all_iff_forall_prop.mp (by decide)
  obtain ⟨earlier, h, later, -, -, hvalue, ⟨s, hs, hrecord⟩, -⟩ :=
    recorded_of_render 1 hkind hheading hnumber htitle hpre hl (by decide) rfl
  have hname : labelName h = "x" := by
    rw [labelName, hvalue (by decide)]
    decide
  rw [hname] at hrecord
  exact ⟨_, s, hs, hrecord⟩

end TexMark.Label
