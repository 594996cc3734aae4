/-
  TexMark/Proofs/Citation/Levels.lean
  ===================================
  **Citations inside of groups.**  A citation may stand in a group of another command, and what is
  shown of it stands there then.  With the templates that are used by default, the two open and
  close the same levels:

    * `level_shownKeys` — the keys as they are shown do to the levels what the keys do as they are
      written;
    * `IsCitation.level_shown_braces` — a citation and what it shows open and close the same braces,
      those of its notes;
    * `IsCitation.level_shown_brackets` — what it shows leaves the brackets around it as they are,
      as the citation does, if the brackets in its keys are balanced.
-/
import TexMark.Config
import TexMark.Proofs.Citation.Formatting
import TexMark.Proofs.Levels
import Mathlib.Data.Bool.AllAny

namespace TexMark.Citation

open Config (defaultCitationTemplates)
open TexMark.Group
open Scan (escapedBehind)
open Text (strip)

/-! ### What citations are made of -/

/-- None of the characters that a citation has around its notes and its keys, or shows there, opens
    or closes a level. -/
def Idle (opener closer : Char) : Prop :=
  ∀ c, Text.isAsciiLetter c ∨ c ∈ (" \t\r\n,:*()" : Text) → IsPlain opener closer c

theorem idle_braces : Idle '{' '}' := by
  rintro c (hc | hc)
  · refine ⟨?_, ?_, ?_⟩ <;> rintro rfl <;> revert hc <;> decide
  · have hall : ∀ c ∈ (" \t\r\n,:*()" : Text), c ≠ '\\' ∧ c ≠ '{' ∧ c ≠ '}' :=
      List.all_iff_forall_prop.mp (by decide)
    exact hall c hc

theorem idle_brackets : Idle '[' ']' := by
  rintro c (hc | hc)
  · refine ⟨?_, ?_, ?_⟩ <;> rintro rfl <;> revert hc <;> decide
  · have hall : ∀ c ∈ (" \t\r\n,:*()" : Text), c ≠ '\\' ∧ c ≠ '[' ∧ c ≠ ']' :=
      List.all_iff_forall_prop.mp (by decide)
    exact hall c hc

/-! ### Keys -/

section

variable {opener closer : Char} {depth depth' : Nat} {name key keys template word : Text}

theorem shownKey_of_parts {front : Text}
    (h : Template.parts template = front.map .literal ++ [.gap "key" "key", .literal ']'])
    (key : Text) : shownKey template key = front ++ key ++ [']'] := by
  have hfront : ∀ value? : Text → Option Text,
      (front.map Template.Part.literal).flatMap (Template.Part.filled value?) = front := by
    intro value?
    clear h
    induction front with
    | nil => rfl
    | cons c front ih =>
      rw [List.map_cons, List.flatMap_cons, ih]
      rfl
  rw [shownKey, h, List.flatMap_append, hfront]
  simp [Template.Part.filled]

/-- A template that shows a key in brackets, behind a word for its command. -/
structure Bracketed (template word : Text) : Prop where
  plain : ∀ c ∈ word, Text.isAsciiLetter c ∨ c ∈ (" \t\r\n,:*()" : Text)
  shown : ∀ key, shownKey template key = '[' :: (word ++ key ++ [']'])

theorem exists_bracketed (hname : name ∈ commandNames) :
    ∃ word, Bracketed (templateFor defaultCitationTemplates name) word := by
  have hwords : ∀ word : Text, (∀ c ∈ word, Text.isAsciiLetter c ∨ c ∈ (" \t\r\n,:*()" : Text)) →
      Template.parts (templateFor defaultCitationTemplates name) =
        ('[' :: word).map .literal ++ [.gap "key" "key", .literal ']'] →
      ∃ word, Bracketed (templateFor defaultCitationTemplates name) word := by
    intro word hplain hparts
    refine ⟨word, hplain, fun key => ?_⟩
    rw [shownKey_of_parts hparts]
    rfl
  simp only [commandNames, List.mem_cons, List.not_mem_nil, or_false] at hname
  rcases hname with rfl | rfl | rfl | rfl | rfl | rfl | rfl
  · exact hwords "author: " (List.all_iff_forall_prop.mp (by decide)) (by decide)
  · exact hwords "title: " (List.all_iff_forall_prop.mp (by decide)) (by decide)
  · exact hwords "year: " (List.all_iff_forall_prop.mp (by decide)) (by decide)
  · exact hwords "fullcite: " (List.all_iff_forall_prop.mp (by decide)) (by decide)
  · exact hwords "cite: " (List.all_iff_forall_prop.mp (by decide)) (by decide)
  · exact hwords "citet: " (List.all_iff_forall_prop.mp (by decide)) (by decide)
  · exact hwords "cite: " (List.all_iff_forall_prop.mp (by decide)) (by decide)

theorem Bracketed.not_mem (h : Bracketed template word) (hkey : '\\' ∉ key) :
    '\\' ∉ shownKey template key := by
  rw [h.shown]
  intro hmem
  simp only [List.mem_cons, List.mem_append, List.not_mem_nil, or_false] at hmem
  rcases hmem with hmem | (hmem | hmem) | hmem
  · cases hmem
  · exact (idle_braces _ (h.plain _ hmem)).1 rfl
  · exact hkey hmem
  · cases hmem

theorem Bracketed.level_braces (h : Bracketed template word) :
    level '{' '}' depth (shownKey template key) = level '{' '}' depth key := by
  have hword : '\\' ∉ word := fun hmem => (idle_braces _ (h.plain _ hmem)).1 rfl
  rw [h.shown, level_cons_of_isPlain ⟨by decide, by decide, by decide⟩, List.append_assoc,
    level_append (Scan.escapedBehind_of_not_mem hword),
    level_of_isPlain fun c hc => idle_braces c (h.plain c hc), Option.bind_some,
    level_concat ⟨by decide, by decide, by decide⟩]

theorem Bracketed.level_brackets (h : Bracketed template word) (hkey : '\\' ∉ key)
    (hlevel : level '[' ']' depth key = some depth') :
    level '[' ']' depth (shownKey template key) = some depth' := by
  have hword : '\\' ∉ word := fun hmem => (idle_brackets _ (h.plain _ hmem)).1 rfl
  rw [h.shown, level_cons (by decide), step_opener, Option.bind_some, List.append_assoc,
    level_append (Scan.escapedBehind_of_not_mem hword),
    level_of_isPlain fun c hc => idle_brackets c (h.plain c hc), Option.bind_some,
    level_append (Scan.escapedBehind_of_not_mem hkey), level_add hlevel 1, Option.bind_some,
    level_cons (by decide), step_closer (by decide)]
  rfl

theorem level_join {sep : Text} (hsep : ∀ c ∈ sep, IsPlain opener closer c) {ts : List Text}
    (hts : ∀ t ∈ ts, '\\' ∉ t) :
    level opener closer depth (Text.join sep ts) = ts.foldlM (level opener closer) depth := by
  have hclosed : '\\' ∉ sep := fun hmem => (hsep _ hmem).1 rfl
  have hbehind : ∀ us : List Text, (∀ u ∈ us, '\\' ∉ u) → ∀ depth,
      level opener closer depth (us.flatMap (sep ++ ·)) = us.foldlM (level opener closer) depth := by
    intro us
    induction us with
    | nil => exact fun _ _ => rfl
    | cons u us ih =>
      intro hus depth
      obtain ⟨hu, hus⟩ := List.forall_mem_cons.mp hus
      rw [List.flatMap_cons, List.append_assoc, level_append (Scan.escapedBehind_of_not_mem hclosed),
        level_of_isPlain hsep, Option.bind_some, level_append (Scan.escapedBehind_of_not_mem hu),
        List.foldlM_cons]
      exact Option.bind_congr fun depth _ => ih hus depth
  cases ts with
  | nil => rfl
  | cons t ts =>
    obtain ⟨ht, hts⟩ := List.forall_mem_cons.mp hts
    rw [Text.join_cons, level_append (Scan.escapedBehind_of_not_mem ht), List.foldlM_cons]
    exact Option.bind_congr fun depth _ => hbehind ts hts depth

theorem not_mem_of_mem_splitOn (hkeys : '\\' ∉ keys) :
    ∀ part ∈ Text.splitOn ',' keys, '\\' ∉ part := fun _ hpart hmem =>
  hkeys (Text.join_splitOn ',' keys ▸ Text.mem_join hpart hmem)

theorem not_mem_of_mem_shown (hfree : ∀ {key}, '\\' ∉ key → '\\' ∉ shownKey template key)
    (hkeys : '\\' ∉ keys) :
    ∀ shown ∈ ((keysOf keys).filter fun key => key ≠ []).map (shownKey template), '\\' ∉ shown := by
  intro shown hmem
  obtain ⟨key, hkey, rfl⟩ := List.mem_map.mp hmem
  obtain ⟨part, hpart, rfl⟩ := List.mem_map.mp (List.mem_filter.mp hkey).1
  exact hfree fun hmem => not_mem_of_mem_splitOn hkeys part hpart (Text.mem_of_mem_strip hmem)

theorem not_mem_shownKeys (hfree : ∀ {key}, '\\' ∉ key → '\\' ∉ shownKey template key)
    (hkeys : '\\' ∉ keys) : '\\' ∉ shownKeys template keys := by
  intro hmem
  rcases Text.mem_of_mem_join hmem with hmem | ⟨shown, hshown, hmem⟩
  · exact absurd hmem (by decide)
  · exact not_mem_of_mem_shown hfree hkeys shown hshown hmem

/-- **What keys do to the levels**, they do as well as they are shown. -/
theorem level_shownKeys (hidle : Idle opener closer) (hopener : ¬ Text.isBlank opener)
    (hcloser : ¬ Text.isBlank closer)
    (hshown : ∀ {key depth depth'}, '\\' ∉ key → level opener closer depth key = some depth' →
      level opener closer depth (shownKey template key) = some depth')
    (hfree : ∀ {key}, '\\' ∉ key → '\\' ∉ shownKey template key)
    (hkeys : '\\' ∉ keys) (h : level opener closer depth keys = some depth') :
    level opener closer depth (shownKeys template keys) = some depth' := by
  have hparts := not_mem_of_mem_splitOn hkeys
  have hsub : ∀ c ∈ (", " : Text), c ∈ (" \t\r\n,:*()" : Text) :=
    List.all_iff_forall_prop.mp (by decide)
  have hsep : ∀ c ∈ (", " : Text), IsPlain opener closer c := fun c hc => hidle c (.inr (hsub c hc))
  rw [← Text.join_splitOn ',' keys,
    level_join (List.forall_mem_singleton.mpr (hidle ',' (.inr (by decide)))) hparts] at h
  rw [shownKeys, level_join hsep (not_mem_of_mem_shown hfree hkeys), keysOf]
  clear hkeys
  generalize Text.splitOn ',' keys = parts at h hparts
  induction parts generalizing depth with
  | nil => exact h
  | cons part parts ih =>
    obtain ⟨hpart, hparts⟩ := List.forall_mem_cons.mp hparts
    obtain ⟨middle, hfirst, hrest⟩ := Option.bind_eq_some_iff.mp h
    rw [← level_strip hopener hcloser] at hfirst
    rw [List.map_cons]
    by_cases hempty : strip part = []
    · rw [hempty] at hfirst
      cases hfirst
      rw [List.filter_cons_of_neg (by simp [hempty])]
      exact ih hrest hparts
    · rw [List.filter_cons_of_pos (by simp [hempty]), List.map_cons, List.foldlM_cons,
        hshown (fun hmem => hpart (Text.mem_of_mem_strip hmem)) hfirst]
      exact ih hrest hparts

end

/-! ### Notes -/

section

variable {count : Nat} {t behind : Text} {given : List Text} {opener closer : Char} {depth : Nat}

theorem Notes.length_le (h : Notes count t given behind) : given.length ≤ count := by
  induction h with
  | none => exact Nat.zero_le _
  | note _ _ ih => exact Nat.succ_le_succ ih

theorem Notes.isContent (h : Notes count t given behind) : ∀ note ∈ given, IsContent '[' ']' note := by
  induction h with
  | none => exact nofun
  | note hnote _ ih =>
    obtain ⟨-, -, -, hcontent⟩ := hnote
    exact List.forall_mem_cons.mpr ⟨hcontent, ih⟩

theorem level_gap (hidle : Idle opener closer) {gap : Text} (hgap : IsGap gap) (t : Text) :
    level opener closer depth (gap ++ t) = level opener closer depth t := by
  have hplain : ∀ c ∈ gap, IsPlain opener closer c := by
    intro c hc
    rcases hgap.spaces c hc with rfl | rfl | rfl | rfl <;> exact hidle _ (.inr (by decide))
  rw [level_append (Scan.escapedBehind_of_not_mem (hgap.not_mem)), level_of_isPlain hplain,
    Option.bind_some]

/-- **What notes do to the levels**: they open and close braces as they are written one after the
    other, and they leave the brackets as they are. -/
theorem Notes.exists_front (h : Notes count t given behind) :
    ∃ front, t = front ++ behind ∧ escapedBehind false front = false ∧
      (∀ depth, level '{' '}' depth front = given.foldlM (level '{' '}') depth) ∧
      ∀ depth, level '[' ']' depth front = some depth := by
  induction h with
  | none => exact ⟨[], rfl, rfl, fun _ => rfl, fun _ => rfl⟩
  | @note _ _ note _ _ _ hnote _ ih =>
    obtain ⟨gap, hgap, rfl, hcontent⟩ := hnote
    obtain ⟨front, rfl, hclosed, hbraces, hbrackets⟩ := ih
    refine ⟨gap ++ '[' :: (note ++ ']' :: front), by simp, ?_, fun depth => ?_, fun depth => ?_⟩
    · simp [Scan.escapedBehind_of_not_mem (hgap.not_mem), hcontent.closed, hclosed]
    · rw [level_gap idle_braces hgap, level_cons_of_isPlain ⟨by decide, by decide, by decide⟩,
        level_append hcontent.closed, List.foldlM_cons]
      refine Option.bind_congr fun depth _ => ?_
      rw [level_cons_of_isPlain ⟨by decide, by decide, by decide⟩, hbraces]
    · rw [level_gap idle_brackets hgap, level_group (by decide) (by decide) (by decide) hcontent,
        hbrackets]

end

/-! ### Citations -/

namespace Written

variable {c : Written} {opener closer : Char} {depth : Nat}

/-- What is shown in front of the keys. -/
def before (c : Written) : Text := if c.placedNotes.1 = [] then [] else c.placedNotes.1 ++ [' ']

/-- What is shown behind the keys. -/
def behind (c : Written) : Text :=
  if c.placedNotes.2 = [] then [] else ' ' :: '(' :: (c.placedNotes.2 ++ [')'])

theorem shown_eq (templates : Table Text) (c : Written) :
    c.shown templates = c.before ++ (shownKeys (templateFor templates c.name) c.keys ++ c.behind) :=
  List.append_assoc ..

theorem before_closed (c : Written) : escapedBehind false c.before = false := by
  unfold before
  split
  · rfl
  · exact Scan.escapedBehind_concat _ _ (by decide)

theorem behind_closed (c : Written) : escapedBehind false c.behind = false := by
  unfold behind
  split
  · rfl
  · rw [← List.cons_append, ← List.cons_append]
    exact Scan.escapedBehind_concat _ _ (by decide)

theorem level_before (hidle : Idle opener closer) (c : Written) :
    level opener closer depth c.before = level opener closer depth c.placedNotes.1 := by
  unfold before
  split
  · rename_i hempty
    rw [hempty]
  · exact level_concat (hidle ' ' (.inr (by decide))) _

theorem level_behind (hidle : Idle opener closer) (c : Written) :
    level opener closer depth c.behind = level opener closer depth c.placedNotes.2 := by
  unfold behind
  split
  · rename_i hempty
    rw [hempty]
  · rw [level_cons_of_isPlain (hidle ' ' (.inr (by decide))),
      level_cons_of_isPlain (hidle '(' (.inr (by decide))),
      level_concat (hidle ')' (.inr (by decide)))]

/-- The notes do the same to the levels where they are placed. -/
theorem level_placedNotes (hopener : ¬ Text.isBlank opener) (hcloser : ¬ Text.isBlank closer)
    (hlength : c.notes.length ≤ 2) (depth : Nat) :
    ((level opener closer depth c.placedNotes.1).bind fun d =>
      level opener closer d c.placedNotes.2) = c.notes.foldlM (level opener closer) depth := by
  unfold placedNotes
  match hnotes : c.notes with
  | [] => rfl
  | [post] => simp [level_strip hopener hcloser]
  | [pre, post] => simp [level_strip hopener hcloser]
  | _ :: _ :: _ :: _ =>
    rw [hnotes] at hlength
    simp at hlength

end Written

section

variable {text name star : Text} {c : Written} {opener closer : Char} {depth : Nat}

theorem command_closed (hname : name ∈ commandNames) (hstar : star = [] ∨ star = ['*']) :
    escapedBehind false ('\\' :: (name ++ star)) = false := by
  have hall : ∀ name ∈ commandNames, ∀ star ∈ [[], ['*']],
      escapedBehind false ('\\' :: (name ++ star)) = false := by decide
  exact hall name hname star (by simpa using hstar)

theorem level_command (hidle : Idle opener closer) (hname : name ∈ commandNames)
    (hstar : star = [] ∨ star = ['*']) :
    level opener closer depth ('\\' :: (name ++ star)) = some depth := by
  obtain ⟨letter, name', rfl⟩ := List.exists_cons_of_ne_nil
    ((by decide : ∀ name ∈ commandNames, name ≠ []) name hname)
  rw [List.cons_append, level_pair]
  refine level_of_isPlain fun c hc => hidle c ?_
  rcases List.mem_append.mp hc with hc | hc
  · exact .inl (isAsciiLetter_of_mem hname c (List.mem_cons_of_mem letter hc))
  · rcases hstar with rfl | rfl
    · cases hc
    · rw [List.mem_singleton.mp hc]
      exact .inr (by decide)

namespace IsCitation

/-- A citation as it is written. -/
theorem exists_source (h : IsCitation text c) : ∃ star front gap, (star = [] ∨ star = ['*']) ∧
    (escapedBehind false front = false ∧
      (∀ depth, level '{' '}' depth front = c.notes.foldlM (level '{' '}') depth) ∧
      ∀ depth, level '[' ']' depth front = some depth) ∧
    IsGap gap ∧ IsContent '{' '}' c.keys ∧ Text.slice text c.start c.stop =
      '\\' :: (c.name ++ star) ++ (front ++ (gap ++ '{' :: (c.keys ++ ['}']))) := by
  obtain ⟨-, star, tail, behind, hstar, htext, hnotes, hkeys⟩ := h.reads
  obtain ⟨front, rfl, hfront⟩ := hnotes.exists_front
  obtain ⟨gap, hgap, rfl, hcontent⟩ := hkeys
  refine ⟨star, front, gap, hstar, hfront, hgap, hcontent, ?_⟩
  rw [Text.drop_eq_slice_append text h.start_lt.le] at htext
  exact List.append_cancel_right (htext.trans (by simp))

theorem source_closed (h : IsCitation text c) :
    escapedBehind false (Text.slice text c.start c.stop) = false := by
  obtain ⟨star, front, gap, -, -, -, -, hsource⟩ := h.exists_source
  rw [hsource]
  simp

theorem level_source_braces (h : IsCitation text c) :
    level '{' '}' depth (Text.slice text c.start c.stop) = c.notes.foldlM (level '{' '}') depth := by
  obtain ⟨star, front, gap, hstar, ⟨hclosed, hbraces, -⟩, hgap, hcontent, hsource⟩ := h.exists_source
  rw [hsource, level_append (command_closed h.reads.known hstar),
    level_command idle_braces h.reads.known hstar, Option.bind_some, level_append hclosed, hbraces]
  have hkeys : ∀ depth, level '{' '}' depth (gap ++ '{' :: (c.keys ++ ['}'])) = some depth := by
    intro depth
    rw [level_gap idle_braces hgap, level_group (by decide) (by decide) (by decide) hcontent,
      level_nil]
  simp [hkeys]

theorem level_source_brackets (h : IsCitation text c) (hkeys : '\\' ∉ c.keys)
    (hbalanced : Balanced '[' ']' c.keys) :
    level '[' ']' depth (Text.slice text c.start c.stop) = some depth := by
  obtain ⟨star, front, gap, hstar, ⟨hclosed, -, hbrackets⟩, hgap, -, hsource⟩ := h.exists_source
  rw [hsource, level_append (command_closed h.reads.known hstar),
    level_command idle_brackets h.reads.known hstar, Option.bind_some, level_append hclosed,
    hbrackets, Option.bind_some, level_gap idle_brackets hgap,
    level_cons_of_isPlain ⟨by decide, by decide, by decide⟩,
    level_concat ⟨by decide, by decide, by decide⟩]
  exact hbalanced.level (by decide) hkeys depth

theorem length_notes (h : IsCitation text c) : c.notes.length ≤ 2 := by
  obtain ⟨-, _, _, _, -, -, hnotes, -⟩ := h.reads
  exact hnotes.length_le

theorem note_isContent (h : IsCitation text c) : ∀ note ∈ c.notes, IsContent '[' ']' note := by
  obtain ⟨-, _, _, _, -, -, hnotes, -⟩ := h.reads
  exact hnotes.isContent

theorem shownKeys_free (h : IsCitation text c) (hkeys : '\\' ∉ c.keys) :
    '\\' ∉ shownKeys (templateFor defaultCitationTemplates c.name) c.keys := by
  obtain ⟨word, hword⟩ := exists_bracketed h.reads.known
  exact not_mem_shownKeys hword.not_mem hkeys

theorem shown_closed (h : IsCitation text c) (hkeys : '\\' ∉ c.keys) :
    escapedBehind false (c.shown defaultCitationTemplates) = false := by
  simp [Written.shown_eq, c.before_closed, Scan.escapedBehind_of_not_mem (h.shownKeys_free hkeys),
    c.behind_closed]

/-- What a citation shows, told piece by piece. -/
theorem level_shown (h : IsCitation text c) (hidle : Idle opener closer)
    (hopener : ¬ Text.isBlank opener) (hcloser : ¬ Text.isBlank closer) (hkeys : '\\' ∉ c.keys)
    (hshown : ∀ depth, level opener closer depth
      (shownKeys (templateFor defaultCitationTemplates c.name) c.keys) = some depth) :
    level opener closer depth (c.shown defaultCitationTemplates) =
      c.notes.foldlM (level opener closer) depth := by
  rw [Written.shown_eq, level_append c.before_closed, c.level_before hidle,
    ← Written.level_placedNotes hopener hcloser h.length_notes]
  refine Option.bind_congr fun depth _ => ?_
  rw [level_append (Scan.escapedBehind_of_not_mem (h.shownKeys_free hkeys)), hshown,
    Option.bind_some, c.level_behind hidle]

/-- **A citation and what it shows open and close the same braces**: those of its notes. -/
theorem level_shown_braces (h : IsCitation text c) (hkeys : '\\' ∉ c.keys) :
    level '{' '}' depth (c.shown defaultCitationTemplates) =
      level '{' '}' depth (Text.slice text c.start c.stop) := by
  obtain ⟨word, hword⟩ := exists_bracketed h.reads.known
  obtain ⟨-, -, -, -, -, -, hcontent, -⟩ := h.exists_source
  rw [h.level_source_braces]
  refine h.level_shown idle_braces (by decide) (by decide) hkeys fun depth => ?_
  exact level_shownKeys idle_braces (by decide) (by decide) (fun _ => hword.level_braces.trans)
    hword.not_mem hkeys (hcontent.level (by decide) depth)

/-- **Both leave the brackets around them as they are** if the keys do. -/
theorem level_shown_brackets (h : IsCitation text c) (hkeys : '\\' ∉ c.keys)
    (hbalanced : Balanced '[' ']' c.keys) :
    level '[' ']' depth (c.shown defaultCitationTemplates) = some depth := by
  obtain ⟨word, hword⟩ := exists_bracketed h.reads.known
  have hnotes : ∀ notes : List Text, (∀ note ∈ notes, IsContent '[' ']' note) →
      notes.foldlM (level '[' ']') depth = some depth := by
    intro notes hall
    induction notes with
    | nil => rfl
    | cons note notes ih =>
      obtain ⟨hnote, hall⟩ := List.forall_mem_cons.mp hall
      rw [List.foldlM_cons, hnote.level (by decide)]
      exact ih hall
  rw [h.level_shown idle_brackets (by decide) (by decide) hkeys fun depth => ?_,
    hnotes _ h.note_isContent]
  exact level_shownKeys idle_brackets (by decide) (by decide) hword.level_brackets hword.not_mem
    hkeys (hbalanced.level (by decide) hkeys depth)

end IsCitation

end

end TexMark.Citation
