/-
  TexMark/Proofs/Citation/Leftovers.lean
  ======================================
  **What one run leaves.**  The run goes over the text once: what a citation covers is not looked at
  again, and neither is what it shows.  So citations can be left, but only in two ways:

    * `IsCarried` — the citation stood in a note of another one, and was carried over with it;
    * `IsCompleted` — a command of the text was no citation, and what a citation behind it shows
      makes it one.

  `leftovers_of_format` says that there is no third one, and that a further run changes nothing just
  when none is left.  For a citation that is replaced takes the braces around its keys away
  (`IsCitation.count_shown_lt`), so that a text with a citation never stays as it is
  (`format_eq_self_iff`).
-/
import TexMark.Proofs.Citation.Rescan

namespace TexMark.Citation

open Config (defaultCitationTemplates)
open Edit (splice)
open TexMark.Group
open Scan (isEscaped)
open Text (slice strip)

/-! ### Braces that are taken away -/

section

variable {text t behind keys template word : Text} {count : Nat} {given : List Text} {c : Written}

theorem Bracketed.count_shownKeys_le (h : Bracketed template word) (keys : Text) :
    (shownKeys template keys).count '{' ≤ keys.count '{' := by
  have hword : '{' ∉ word := fun hmem => (idle_braces _ (h.plain _ hmem)).2.1 rfl
  have hkey : ∀ key, (shownKey template key).count '{' = key.count '{' := by
    intro key
    rw [h.shown]
    simp [List.count_eq_zero.mpr hword]
  conv_rhs => rw [← Text.join_splitOn ',' keys]
  rw [shownKeys, Text.count_join (by decide), Text.count_join (by decide), keysOf]
  generalize Text.splitOn ',' keys = parts
  induction parts with
  | nil => exact le_rfl
  | cons part parts ih =>
    have hstrip := Text.count_strip_le '{' part
    rw [List.map_cons, List.flatten_cons, List.count_append]
    by_cases hempty : strip part = []
    · rw [List.filter_cons_of_neg (by simp [hempty])]
      omega
    · rw [List.filter_cons_of_pos (by simp [hempty]), List.map_cons, List.flatten_cons,
        List.count_append, hkey]
      omega

theorem Notes.count_le (h : Notes count t given behind) (x : Char) :
    given.flatten.count x + behind.count x ≤ t.count x := by
  induction h with
  | none => simp
  | note hnote _ ih =>
    obtain ⟨gap, -, rfl, -⟩ := hnote
    simp only [List.flatten_cons, List.count_append, List.count_cons]
    omega

theorem Written.count_shown_le (templates : Table Text) (c : Written) :
    (c.shown templates).count '{' ≤ c.notes.flatten.count '{' +
      (shownKeys (templateFor templates c.name) c.keys).count '{' := by
  have hbefore : c.before.count '{' = c.placedNotes.1.count '{' := by
    unfold before
    split <;> simp_all
  have hbehind : c.behind.count '{' = c.placedNotes.2.count '{' := by
    unfold behind
    split <;> simp_all
  have hplaced : c.placedNotes.1.count '{' + c.placedNotes.2.count '{' ≤
      c.notes.flatten.count '{' := by
    unfold placedNotes
    rcases c.notes with _ | ⟨pre, _ | ⟨post, more⟩⟩
    · simp
    · simpa using Text.count_strip_le '{' pre
    · have hpre := Text.count_strip_le '{' pre
      have hpost := Text.count_strip_le '{' post
      simp only [List.flatten_cons, List.count_append]
      omega
  rw [c.shown_eq, List.count_append, List.count_append]
  omega

/-- **A citation takes braces away**: those around its keys are not shown. -/
theorem IsCitation.count_shown_lt (hc : IsCitation text c) :
    (c.shown defaultCitationTemplates).count '{' < (slice text c.start c.stop).count '{' := by
  obtain ⟨word, hword⟩ := exists_bracketed hc.reads.known
  have hshown := c.count_shown_le defaultCitationTemplates
  have hkeys := hword.count_shownKeys_le c.keys
  obtain ⟨-, star, tail, behind, -, htext, hnotes, gap, -, rfl, -⟩ := hc.reads
  have hnotes := hnotes.count_le '{'
  have hsource := congrArg (List.count '{') htext
  rw [Text.drop_eq_slice_append text hc.start_lt.le] at hsource
  simp only [List.count_append, List.count_cons] at hsource hnotes
  simp at hsource hnotes
  omega

/-- **A text stays as it is** just when there is no citation in it. -/
theorem format_eq_self_iff (text : Text) :
    (format defaultCitationTemplates text).result = .ok text ↔ ∀ c, ¬ IsCitation text c := by
  obtain ⟨citations, hcitations⟩ := exists_areCitations text
  rw [format_of_areCitations hcitations]
  constructor
  · intro heq c hc
    have hnone := Edit.eq_nil_of_splice_eq (x := '{') (hcitations.ordered defaultCitationTemplates)
      (fun e he => ?_) (Except.ok.inj heq)
    · rw [List.map_eq_nil_iff] at hnone
      obtain ⟨c', hmem, -⟩ := hcitations.leftmost c hc
      rw [hnone] at hmem
      cases hmem
    · obtain ⟨c', hmem, rfl⟩ := List.mem_map.mp he
      exact (hcitations.each c' hmem).count_shown_lt
  · intro hnone
    have hempty : citations = [] :=
      List.eq_nil_iff_forall_not_mem.mpr fun c hmem => hnone c (hcitations.each c hmem)
    simp [hempty, splice, slice]

end

/-! ### What is left -/

/-- A citation of what is written **was carried over**: it begins in a note of a citation of the
    text, with its whole command. -/
def IsCarried (text shown : Text) (citations : List Written) (d : Written) : Prop :=
  ∃ earlier c later before behind, citations = earlier ++ c :: later ∧
    shown.take d.start = writtenUpTo text c.start earlier ++ before ∧
    InNote c before ('\\' :: (d.name ++ behind))

/-- A citation of what is written **was completed**: it begins between the citations of the text,
    where it is unfinished, and what one of those behind it shows completes it. -/
def IsCompleted (text shown : Text) (citations : List Written) (d : Written) : Prop :=
  ∃ earlier later pos, citations = earlier ++ later ∧ (∀ c ∈ earlier, c.stop ≤ pos) ∧
    (∀ c ∈ later, pos < c.start) ∧ isEscaped text pos = false ∧
    shown.take d.start = writtenUpTo text pos earlier ∧
    ∃ c ∈ later, Unfinished d.name c.keys (slice text pos c.start)

section

variable {text name y : Text} {citations : List Written} {c d : Written}

theorem AreCitations.ahead (h : AreCitations text citations)
    (hkeys : ∀ c ∈ citations, '\\' ∉ c.keys) : Ahead text 0 citations where
  each := fun c hc => ⟨h.each c hc, hkeys c hc⟩
  behind := fun _ _ => Nat.zero_le _
  apart := h.apart
  unescaped := rfl

theorem prefix_of_letters {v w : Text} {z : Char} (hname : ∀ c ∈ name, Text.isAsciiLetter c)
    (h : name ++ w = y ++ z :: v) (hz : Text.isAsciiLetter z = false) : name <+: y := by
  rcases List.append_eq_append_iff.mp h with ⟨y', rfl, -⟩ | ⟨more, rfl, hmore⟩
  · exact List.prefix_append name y'
  · cases more with
    | nil => simp
    | cons x more =>
      obtain ⟨rfl, -⟩ := List.cons.inj hmore
      rw [hname z (List.mem_append_right y List.mem_cons_self)] at hz
      cases hz

/-- **A citation that is left** was carried over, or it was completed. -/
theorem AreCitations.carried_or_completed (h : AreCitations text citations)
    (hkeys : ∀ c ∈ citations, '\\' ∉ c.keys) (hd : IsCitation (writtenFrom text 0 citations) d) :
    IsCarried text (writtenFrom text 0 citations) citations d ∨
      IsCompleted text (writtenFrom text 0 citations) citations d := by
  have hopen := hd.unescaped
  rw [Scan.isEscaped_eq] at hopen
  obtain ⟨hname, star, tail, -, -, hdrop, -⟩ := hd.reads
  have hsplit : writtenFrom text 0 citations = (writtenFrom text 0 citations).take d.start ++
      '\\' :: (d.name ++ star ++ tail) := by
    rw [← hdrop, List.take_append_drop]
  rcases (h.ahead hkeys).located hsplit hopen with
    ⟨earlier, later, pos, hcitations, hahead, hbehind, hbefore, -, hfront, hrest⟩ |
    ⟨earlier, c, later, x, y, z, v, hcitations, hfront, hnote, hrest, hz⟩
  · have hreads := hd.reads
    rw [hdrop, hrest] at hreads
    rcases hahead.reads hreads with ⟨d', hd', hstart⟩ | hunfinished
    · -- a citation of the text would begin in one of the others
      obtain ⟨c, hc, hle, hlt⟩ := h.leftmost d' hd'
      rw [hcitations] at hc
      rcases List.mem_append.mp hc with hc | hc
      · have := hbefore c hc
        omega
      · have := hbehind c hc
        omega
    · exact .inr ⟨earlier, later, pos, hcitations, hbefore, hbehind, hahead.unescaped, hfront,
        hunfinished⟩
  · rw [List.append_assoc] at hrest
    obtain ⟨behind, rfl⟩ := prefix_of_letters (isAsciiLetter_of_mem hname) hrest hz
    exact .inl ⟨earlier, c, later, x, behind, hcitations, hfront, hnote⟩

/-! ### Citations of given texts -/

theorem IsCitation.isSome_keys (h : IsCitation text c) :
    ((command [] (text.drop c.start)).bind fun found =>
      braces? (skipSpaces (notes 2 found.2).2)).isSome := by
  obtain ⟨tail, hcommand, behind, hnotes, -, hkeys⟩ := h.reads.command_notes []
  rw [hcommand, Option.bind_some, hnotes, braces?_skipSpaces_eq_some_iff.mpr hkeys]
  rfl

/-- Citations of a text are all that there are if they cover every offset at which one is read. -/
theorem areCitations_of_covered (heach : ∀ c ∈ citations, IsCitation text c)
    (hapart : citations.Pairwise fun a b => a.stop ≤ b.start)
    (hcovered : ∀ pos < text.length, ((command [] (text.drop pos)).bind fun found =>
      braces? (skipSpaces (notes 2 found.2).2)).isSome →
        ∃ c ∈ citations, c.start ≤ pos ∧ pos < c.stop) : AreCitations text citations where
  each := heach
  apart := hapart
  leftmost := fun c hc => hcovered c.start (hc.start_lt.trans_le hc.ends) hc.isSome_keys

theorem isCitation_of_notes {tail behind : Text} (hnotes : Notes 2 tail c.notes behind)
    (h : c.name ∈ commandNames ∧ isEscaped text c.start = false ∧
      text.drop c.start = '\\' :: (c.name ++ tail) ∧
      braces? (skipSpaces behind) = some (c.keys, text.drop c.stop) ∧ c.stop ≤ text.length) :
    IsCitation text c := by
  obtain ⟨hname, hunescaped, hdrop, hkeys, hends⟩ := h
  exact ⟨hunescaped, ⟨hname, [], tail, behind, .inl rfl, by rw [hdrop, List.append_nil], hnotes,
    braces?_skipSpaces_eq_some_iff.mp hkeys⟩, hends⟩

/-- A citation whose note is a citation as well. -/
theorem areCitations_nested : AreCitations "\\cite[see \\cite{b}]{a}"
    [⟨0, 22, "cite", ["see \\cite{b}"], "a"⟩] := by
  have hnote : Follows '[' ']' "[see \\cite{b}]{a}" "see \\cite{b}"
      "{a}" := brackets?_skipSpaces_eq_some_iff.mp (by decide)
  refine areCitations_of_covered (List.forall_mem_singleton.mpr ?_) (List.pairwise_singleton _ _)
    (by decide)
  exact isCitation_of_notes (.note hnote (.none _)) (by decide)

/-- **What one run leaves.**  With the templates that are used by default and no backslash in the
    keys, each citation in the result was carried over in a note of another one, or was completed by
    what another one shows.  A further run changes nothing just when none is left. -/
theorem leftovers_of_format (h : AreCitations text citations)
    (hkeys : ∀ c ∈ citations, '\\' ∉ c.keys) :
    ∃ shown, (format defaultCitationTemplates text).result = .ok shown ∧
      (∀ d, IsCitation shown d →
        IsCarried text shown citations d ∨ IsCompleted text shown citations d) ∧
      ((format defaultCitationTemplates shown).result = .ok shown ↔ ∀ d, ¬ IsCitation shown d) := by
  refine ⟨writtenFrom text 0 citations, ?_, fun d => h.carried_or_completed hkeys,
    format_eq_self_iff _⟩
  rw [format_of_areCitations h]
  rfl

theorem leftovers_of_format_nested :
    AreCitations "\\cite[see \\cite{b}]{a}"
      [⟨0, 22, "cite", ["see \\cite{b}"], "a"⟩] ∧
    ∃ shown, (format defaultCitationTemplates "\\cite[see \\cite{b}]{a}").result =
        .ok shown ∧
      (∀ d, IsCitation shown d →
        IsCarried "\\cite[see \\cite{b}]{a}" shown
            [⟨0, 22, "cite", ["see \\cite{b}"], "a"⟩] d ∨
          IsCompleted "\\cite[see \\cite{b}]{a}" shown
            [⟨0, 22, "cite", ["see \\cite{b}"], "a"⟩] d) ∧
      ((format defaultCitationTemplates shown).result = .ok shown ↔ ∀ d, ¬ IsCitation shown d) :=
  ⟨areCitations_nested, leftovers_of_format areCitations_nested (by decide)⟩

/-- Citations that are left: one in a note, which a further run replaces; one to which another
    citation gives a note; and one around a citation with a bracket in its key. -/
theorem citations_left :
    (AreCitations "\\cite[see \\cite{b}]{a}"
        [⟨0, 22, "cite", ["see \\cite{b}"], "a"⟩] ∧
      (format defaultCitationTemplates "\\cite[see \\cite{b}]{a}").result =
        .ok "[cite: a] (see \\cite{b})" ∧
      IsCitation "[cite: a] (see \\cite{b})" ⟨15, 23, "cite", [], "b"⟩ ∧
      (format defaultCitationTemplates "[cite: a] (see \\cite{b})").result ≠
        .ok "[cite: a] (see \\cite{b})") ∧
    (AreCitations "\\cite\\cite{a}{b}" [⟨5, 13, "cite", [], "a"⟩] ∧
      (format defaultCitationTemplates "\\cite\\cite{a}{b}").result =
        .ok "\\cite[cite: a]{b}" ∧
      IsCitation "\\cite[cite: a]{b}" ⟨0, 17, "cite", ["cite: a"], "b"⟩) ∧
    AreCitations "\\cite[\\cite{a]}{b}" [⟨6, 15, "cite", [], "a]"⟩] ∧
      (format defaultCitationTemplates "\\cite[\\cite{a]}{b}").result =
        .ok "\\cite[[cite: a]]{b}" ∧
      IsCitation "\\cite[[cite: a]]{b}" ⟨0, 19, "cite", ["[cite: a]"], "b"⟩ := by
  have hcarried : IsCitation "[cite: a] (see \\cite{b})" ⟨15, 23, "cite", [], "b"⟩ :=
    isCitation_of_notes (.none "{b})") (by decide)
  have hseam : AreCitations "\\cite\\cite{a}{b}" [⟨5, 13, "cite", [], "a"⟩] :=
    areCitations_of_covered (List.forall_mem_singleton.mpr
      (isCitation_of_notes (.none "{a}{b}") (by decide)))
      (List.pairwise_singleton _ _) (by decide)
  have hbracket : AreCitations "\\cite[\\cite{a]}{b}" [⟨6, 15, "cite", [], "a]"⟩] :=
    areCitations_of_covered (List.forall_mem_singleton.mpr
      (isCitation_of_notes (.none "{a]}{b}") (by decide)))
      (List.pairwise_singleton _ _) (by decide)
  have hnote : Follows '[' ']' "[cite: a]{b}" "cite: a" "{b}" :=
    brackets?_skipSpaces_eq_some_iff.mp (by decide)
  have hnote' : Follows '[' ']' "[[cite: a]]{b}" "[cite: a]" "{b}" :=
    brackets?_skipSpaces_eq_some_iff.mp (by decide)
  refine ⟨⟨areCitations_nested, ?_, hcarried, ?_⟩, ⟨hseam, ?_, ?_⟩, hbracket, ?_, ?_⟩
  · rw [format_of_areCitations areCitations_nested]
    decide
  · exact fun heq => (format_eq_self_iff _).mp heq _ hcarried
  · rw [format_of_areCitations hseam]
    decide
  · exact isCitation_of_notes (.note hnote (.none _)) (by decide)
  · rw [format_of_areCitations hbracket]
    decide
  · exact isCitation_of_notes (.note hnote' (.none _)) (by decide)

end

end TexMark.Citation
