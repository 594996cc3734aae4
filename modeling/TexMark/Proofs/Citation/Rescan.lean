/-
  TexMark/Proofs/Citation/Rescan.lean
  ===================================
  **Reading a text again.**  What the run has written is read from left to right once more, and
  next to the text it was written from.  Outside of the citations the two are the same, and a
  citation and what it shows open and close the same levels; so whatever is read of the one is
  read of the other (`Ahead.follows`, `Ahead.notes`, `Ahead.keys`), unless what a citation shows is
  read as a part of it (`Joins`):

    * `Ahead.reads` — a citation that is read where the text was copied is a citation of the text,
      or one that is unfinished there;
    * `Ahead.located` — a backslash of what is written was copied, or it stands in a note.
-/
import TexMark.Proofs.Citation.Levels

namespace TexMark.Citation

open Config (defaultCitationTemplates)
open Edit (splice)
open TexMark.Group
open Scan (escapedBehind isEscaped)
open Text (slice strip)

/-! ### What is ahead of an offset -/

/-- What the run writes from an offset on. -/
def writtenFrom (text : Text) (pos : Nat) (later : List Written) : Text :=
  splice text pos text.length (later.map (Written.edit defaultCitationTemplates))

/-- What the run writes up to an offset. -/
def writtenUpTo (text : Text) (pos : Nat) (earlier : List Written) : Text :=
  splice text 0 pos (earlier.map (Written.edit defaultCitationTemplates))

/-- The citations that are **ahead** of an offset: they do not overlap, and their keys have no
    backslash.  The offset itself is not behind an open backslash. -/
structure Ahead (text : Text) (pos : Nat) (later : List Written) : Prop where
  each : ∀ c ∈ later, IsCitation text c ∧ '\\' ∉ c.keys
  behind : ∀ c ∈ later, pos ≤ c.start
  apart : later.Pairwise fun a b => a.stop ≤ b.start
  unescaped : isEscaped text pos = false

/-- Behind the notes of a command another citation begins, after `w`, and what that one shows can
    be read as the next argument or as a part of it: there are only blanks in front of it, or it
    stands in a note that is not ended, and the brackets in its keys end the note. -/
def Joins (keys w : Text) : Prop :=
  IsGap w ∨ ¬ Balanced '[' ']' keys ∧ ∃ gap part, IsGap gap ∧ w = gap ++ '[' :: part ∧
    ¬ ∃ note rest, part = note ++ ']' :: rest ∧ IsContent '[' ']' note

/-- A citation is **unfinished** where another one begins: up to there a part of its command
    stands, or its command and notes that the other one joins. -/
inductive Unfinished (name keys w : Text) : Prop
  | command (h : w <+: '\\' :: name)
  | notes {star tail rest : Text} {given : List Text} (hstar : star = [] ∨ star = ['*'])
      (hw : w = '\\' :: (name ++ star) ++ tail) (hnotes : Notes 2 tail given rest)
      (hjoins : Joins keys rest)

/-- A place in a **note** of a citation, in front of a backslash that is not escaped: what stands
    before it of all that the citation shows, and behind it of the note. -/
def InNote (c : Written) (before behind : Text) : Prop :=
  ∃ note ∈ c.notes, ∃ u x v, strip note = x ++ behind ∧ escapedBehind false x = false ∧
    before = u ++ x ∧ c.shown defaultCitationTemplates = u ++ strip note ++ v

section

variable {text rest s t name inner note behind : Text} {given : List Text}
  {pos depth count : Nat} {later more : List Written} {c : Written}

@[simp] theorem writtenFrom_nil (text : Text) (pos : Nat) :
    writtenFrom text pos [] = text.drop pos := by
  simp [writtenFrom, splice, slice]

theorem writtenFrom_cons (text : Text) (pos : Nat) (c : Written) (more : List Written) :
    writtenFrom text pos (c :: more) = slice text pos c.start ++
      (c.shown defaultCitationTemplates ++ writtenFrom text c.stop more) :=
  List.append_assoc ..

/-- What is ahead is written behind what is copied. -/
theorem writtenFrom_of_drop (hdrop : text.drop pos = s ++ t)
    (hbehind : ∀ c ∈ later, pos + s.length ≤ c.start) :
    writtenFrom text pos later = s ++ writtenFrom text (pos + s.length) later := by
  cases later with
  | nil => rw [writtenFrom_nil, writtenFrom_nil, Text.drop_of_drop hdrop, hdrop]
  | cons c more =>
    rw [writtenFrom_cons, writtenFrom_cons,
      Text.slice_split hdrop (hbehind c List.mem_cons_self), List.append_assoc]

/-- A group of the text, in what is copied up to an offset behind it. -/
theorem Follows.slice {opener closer : Char} {pos' stop : Nat}
    (h : Follows opener closer (text.drop pos) inner (text.drop pos')) (hpos : pos' ≤ stop)
    (hstop : stop ≤ text.length) :
    Follows opener closer (slice text pos stop) inner (slice text pos' stop) := by
  obtain ⟨gap, hgap, hdrop, hcontent⟩ := h
  have hdrop : text.drop pos = gap ++ opener :: (inner ++ [closer]) ++ text.drop pos' := by
    simp [hdrop]
  have hlength := congrArg List.length hdrop
  simp only [List.length_append, List.length_cons, List.length_nil, List.length_drop] at hlength
  have hpos' : pos' = pos + (gap ++ opener :: (inner ++ [closer])).length := by
    simp only [List.length_append, List.length_cons, List.length_nil]
    omega
  refine ⟨gap, hgap, ?_, hcontent⟩
  rw [Text.slice_split hdrop (hpos' ▸ hpos), ← hpos']
  simp

/-- A character of two pieces is one of the first, or of the second. -/
theorem append_eq_append_cons {a b : Text} {x : Char} (h : s ++ t = a ++ x :: b) :
    (∃ s', s = a ++ x :: s' ∧ b = s' ++ t) ∨ ∃ a', a = s ++ a' ∧ t = a' ++ x :: b := by
  rcases List.append_eq_append_iff.mp h with ⟨a', ha, ht⟩ | ⟨bs, hs, hbs⟩
  · exact .inr ⟨a', ha, ht⟩
  · rcases List.cons_eq_append_iff.mp hbs with ⟨rfl, ht⟩ | ⟨s', rfl, hb⟩
    · exact .inr ⟨[], by simpa using hs.symm, ht⟩
    · exact .inl ⟨s', hs, hb⟩

theorem append_singleton_eq_append_cons {a b : Text} {x z : Char} (h : s ++ [z] = a ++ x :: b)
    (hz : z ≠ x) : ∃ y, s = a ++ x :: y ∧ b = y ++ [z] := by
  rcases append_eq_append_cons h with hs | ⟨a', -, hlast⟩
  · exact hs
  · have hmem : x ∈ [z] := hlast ▸ List.mem_append_right a' List.mem_cons_self
    exact absurd (List.mem_singleton.mp hmem).symm hz

/-! ### Backslashes that are shown -/

theorem Written.exists_note_of_placed (c : Written) :
    (c.placedNotes.1 = [] ∨ ∃ note ∈ c.notes, c.placedNotes.1 = strip note) ∧
      (c.placedNotes.2 = [] ∨ ∃ note ∈ c.notes, c.placedNotes.2 = strip note) := by
  unfold placedNotes
  rcases c.notes with _ | ⟨pre, _ | ⟨post, more⟩⟩
  · exact ⟨.inl rfl, .inl rfl⟩
  · exact ⟨.inl rfl, .inr ⟨pre, List.mem_cons_self, rfl⟩⟩
  · exact ⟨.inr ⟨pre, List.mem_cons_self, rfl⟩,
      .inr ⟨post, List.mem_cons_of_mem pre List.mem_cons_self, rfl⟩⟩

theorem Written.before_eq (c : Written) :
    c.before = [] ∨ ∃ note ∈ c.notes, c.before = strip note ++ [' '] := by
  unfold before
  split
  · exact .inl rfl
  · rename_i hne
    obtain ⟨note, hnote, heq⟩ := c.exists_note_of_placed.1.resolve_left hne
    exact .inr ⟨note, hnote, by rw [heq]⟩

theorem Written.behind_eq (c : Written) :
    c.behind = [] ∨ ∃ note ∈ c.notes, c.behind = [' ', '('] ++ (strip note ++ [')']) := by
  unfold behind
  split
  · exact .inl rfl
  · rename_i hne
    obtain ⟨note, hnote, heq⟩ := c.exists_note_of_placed.2.resolve_left hne
    exact .inr ⟨note, hnote, by rw [heq]; rfl⟩

/-- **A backslash that a citation shows** stands in one of its notes. -/
theorem IsCitation.inNote (hc : IsCitation text c) (hkeys : '\\' ∉ c.keys) {a b : Text}
    (hshown : c.shown defaultCitationTemplates = a ++ '\\' :: b)
    (ha : escapedBehind false a = false) :
    ∃ y z v, InNote c a ('\\' :: y) ∧ b = y ++ z :: v ∧ Text.isAsciiLetter z = false := by
  have hfree := hc.shownKeys_free hkeys
  have hpieces := c.shown_eq defaultCitationTemplates
  generalize shownKeys (templateFor defaultCitationTemplates c.name) c.keys = keys at hfree hpieces
  rcases append_eq_append_cons (hpieces.symm.trans hshown) with ⟨s, hbefore, rfl⟩ | ⟨a', rfl, hrest⟩
  · -- in the note in front of the keys
    rcases c.before_eq with hnil | ⟨note, hnote, heq⟩
    · simp [hnil] at hbefore
    · obtain ⟨y, hstrip, rfl⟩ := append_singleton_eq_append_cons (heq.symm.trans hbefore) (by decide)
      refine ⟨y, ' ', _, ⟨note, hnote, [], a, [' '] ++ (keys ++ c.behind), hstrip, ha,
        rfl, ?_⟩, List.append_assoc .., rfl⟩
      rw [hpieces, heq, List.nil_append, List.append_assoc]
  · rcases append_eq_append_cons hrest with ⟨s, hmem, -⟩ | ⟨a, rfl, hbehind⟩
    · exact absurd (hmem ▸ List.mem_append_right a' List.mem_cons_self) hfree
    · -- in the note behind them
      rcases c.behind_eq with hnil | ⟨note, hnote, heq⟩
      · simp [hnil] at hbehind
      · rcases append_eq_append_cons (heq.symm.trans hbehind) with ⟨s, hmem, -⟩ | ⟨x, rfl, hlast⟩
        · exact absurd (hmem ▸ List.mem_append_right a List.mem_cons_self :
            '\\' ∈ ([' ', '('] : Text)) (by decide)
        · obtain ⟨y, hstrip, rfl⟩ := append_singleton_eq_append_cons hlast (by decide)
          refine ⟨y, ')', [], ⟨note, hnote, c.before ++ (keys ++ [' ', '(']), x, [')'],
            hstrip, ?_, by simp, ?_⟩, rfl, rfl⟩
          · simpa [c.before_closed, Scan.escapedBehind_of_not_mem hfree] using ha
          · rw [hpieces, heq]
            simp

namespace Ahead

theorem slice_closed (h : Ahead text pos later) (hc : c ∈ later) :
    escapedBehind false (slice text pos c.start) = false := by
  have hescaped := Scan.isEscaped_slice text (h.behind c hc)
  rwa [(h.each c hc).1.unescaped, h.unescaped, eq_comm] at hescaped

theorem of_cons (h : Ahead text pos (c :: more)) : Ahead text c.stop more where
  each := fun d hd => h.each d (List.mem_cons_of_mem c hd)
  behind := (List.pairwise_cons.mp h.apart).1
  apart := (List.pairwise_cons.mp h.apart).2
  unescaped := by
    obtain ⟨hc, -⟩ := h.each c List.mem_cons_self
    rw [Scan.isEscaped_slice text hc.start_lt.le, hc.unescaped, hc.source_closed]

theorem advance (h : Ahead text pos later) (hdrop : text.drop pos = s ++ t)
    (hs : escapedBehind false s = false) (hbehind : ∀ c ∈ later, pos + s.length ≤ c.start) :
    Ahead text (pos + s.length) later where
  each := h.each
  behind := hbehind
  apart := h.apart
  unescaped := by
    rw [Scan.isEscaped_add hdrop, h.unescaped, hs]

/-- The text from an offset on, up to the first citation and behind it. -/
theorem drop_eq (h : Ahead text pos (c :: more)) : text.drop pos =
    slice text pos c.start ++ (slice text c.start c.stop ++ text.drop c.stop) := by
  obtain ⟨hc, -⟩ := h.each c List.mem_cons_self
  rw [Text.drop_eq_slice_append text (h.behind c List.mem_cons_self),
    Text.drop_eq_slice_append text hc.start_lt.le]

theorem behind_first (h : Ahead text pos (c :: more)) : ∀ d ∈ c :: more, c.start ≤ d.start := by
  have hlt := (h.each c List.mem_cons_self).1.start_lt
  refine List.forall_mem_cons.mpr ⟨le_rfl, fun d hd => ?_⟩
  exact hlt.le.trans ((List.pairwise_cons.mp h.apart).1 d hd)

/-- What is copied up to the first citation is in front of all of them. -/
theorem behind_prefix (h : Ahead text pos (c :: more)) (hs : s <+: slice text pos c.start) :
    ∀ d ∈ c :: more, pos + s.length ≤ d.start := by
  intro d hd
  have hlength := hs.length_le
  rw [Text.length_slice pos (h.each c List.mem_cons_self).1.start_le_length] at hlength
  have := h.behind_first d hd
  have := h.behind c List.mem_cons_self
  omega

/-- **What stands ahead is copied**, or it is longer than what is copied up to the next
    citation. -/
theorem copied_or_crossed (h : Ahead text pos later)
    (hwritten : writtenFrom text pos later = s ++ rest) (hs : escapedBehind false s = false) :
    (text.drop pos = s ++ text.drop (pos + s.length) ∧ Ahead text (pos + s.length) later ∧
      writtenFrom text (pos + s.length) later = rest ∧ ∀ c ∈ later, pos + s.length ≤ c.start) ∨
    ∃ c ∈ later, slice text pos c.start <+: s ∧ slice text pos c.start ≠ s := by
  have hcopied : ∀ t, text.drop pos = s ++ t → (∀ c ∈ later, pos + s.length ≤ c.start) →
      text.drop pos = s ++ text.drop (pos + s.length) ∧ Ahead text (pos + s.length) later ∧
        writtenFrom text (pos + s.length) later = rest ∧
        ∀ c ∈ later, pos + s.length ≤ c.start := by
    intro t hdrop hbehind
    rw [writtenFrom_of_drop hdrop hbehind] at hwritten
    exact ⟨by rw [Text.drop_of_drop hdrop, hdrop], h.advance hdrop hs hbehind,
      List.append_cancel_left hwritten, hbehind⟩
  cases later with
  | nil =>
    rw [writtenFrom_nil] at hwritten
    exact .inl (hcopied rest hwritten nofun)
  | cons c more =>
    rw [writtenFrom_cons] at hwritten
    rcases List.append_eq_append_iff.mp hwritten with ⟨u, hs', -⟩ | ⟨u, hslice, -⟩
    · by_cases hu : u = []
      · subst hu
        rw [List.append_nil] at hs'
        exact .inl (hcopied _ (hs' ▸ h.drop_eq) (h.behind_prefix (hs' ▸ List.prefix_rfl)))
      · refine .inr ⟨c, List.mem_cons_self, hs' ▸ List.prefix_append _ u, fun heq => hu ?_⟩
        rw [← heq] at hs'
        exact List.append_right_eq_self.mp hs'.symm
    · have hdrop := h.drop_eq
      rw [hslice, List.append_assoc] at hdrop
      exact .inl (hcopied _ hdrop (h.behind_prefix (hslice ▸ List.prefix_append s u)))

/-! ### Arguments -/

/-- **The levels are the same** in what is written and in what it was written from. -/
theorem level_braces (h : Ahead text pos later) :
    level '{' '}' depth (writtenFrom text pos later) = level '{' '}' depth (text.drop pos) := by
  induction later generalizing pos depth with
  | nil => rw [writtenFrom_nil]
  | cons c more ih =>
    obtain ⟨hc, hkeys⟩ := h.each c List.mem_cons_self
    have hslice := h.slice_closed List.mem_cons_self
    rw [writtenFrom_cons, h.drop_eq, level_append hslice, level_append hslice]
    refine Option.bind_congr fun depth _ => ?_
    rw [level_append (hc.shown_closed hkeys), level_append hc.source_closed,
      hc.level_shown_braces hkeys]
    exact Option.bind_congr fun depth _ => ih h.of_cons

/-- A bracket that ends in what is copied up to the citations ahead. -/
theorem ends_copied (h : Ahead text pos later) (hends : Ends '[' ']' depth (text.drop pos) note)
    (hbehind : ∀ c ∈ later, pos + (note ++ [']']).length ≤ c.start) :
    ∃ pos', text.drop pos = note ++ ']' :: text.drop pos' ∧ Ahead text pos' later ∧
      writtenFrom text pos later = note ++ ']' :: writtenFrom text pos' later := by
  obtain ⟨rest, hrest⟩ := hends.stands
  have hclosed : escapedBehind false (note ++ [']']) = false :=
    Scan.escapedBehind_concat _ _ (by decide)
  refine ⟨_, ?_, h.advance hrest.symm hclosed hbehind, ?_⟩
  · rw [Text.drop_of_drop hrest.symm, ← hrest, List.append_assoc, List.singleton_append]
  · rw [writtenFrom_of_drop hrest.symm hbehind, List.append_assoc, List.singleton_append]

/-- **A bracket ends** where it ends in the text, unless the brackets in the keys of a citation
    before that are not balanced. -/
theorem ends (h : Ahead text pos later)
    (hends : Ends '[' ']' depth (writtenFrom text pos later) inner) :
    (∃ note pos' later', later' <:+ later ∧ Ends '[' ']' depth (text.drop pos) note ∧
      text.drop pos = note ++ ']' :: text.drop pos' ∧ Ahead text pos' later' ∧
      writtenFrom text pos later = inner ++ ']' :: writtenFrom text pos' later') ∨
    ∃ c ∈ later, ¬ Balanced '[' ']' c.keys ∧
      level '[' ']' depth (slice text pos c.start) ≠ none := by
  -- by the citations ahead: each is passed over if the bracket is still open behind it
  induction later generalizing pos depth inner with
  | nil =>
    rw [writtenFrom_nil] at hends
    obtain ⟨pos', hcopied⟩ := h.ends_copied hends nofun
    exact .inl ⟨inner, pos', [], List.suffix_rfl, hends, hcopied⟩
  | cons c more ih =>
    obtain ⟨hc, hkeys⟩ := h.each c List.mem_cons_self
    have hslice := h.slice_closed List.mem_cons_self
    rw [writtenFrom_cons] at hends
    cases hlevel : level '[' ']' depth (slice text pos c.start) with
    | none =>
      -- it ends in front of the citation
      have hfront := ends_append_of_level (by decide) (by decide) (by decide) hlevel hends
      have hends := h.drop_eq ▸ hfront.append _
      obtain ⟨pos', hcopied⟩ := h.ends_copied hends (h.behind_prefix hfront.stands)
      exact .inl ⟨inner, pos', c :: more, List.suffix_rfl, hends, hcopied⟩
    | some depth' =>
      by_cases hbalanced : Balanced '[' ']' c.keys
      · obtain ⟨inner', rfl, hshown⟩ :=
          (ends_append_iff (by decide) (by decide) hlevel hslice).mp hends
        obtain ⟨inner, rfl, hrest⟩ := (ends_append_iff (by decide) (by decide)
          (hc.level_shown_brackets hkeys hbalanced) (hc.shown_closed hkeys)).mp hshown
        have hsource : level '[' ']' depth' (slice text c.start c.stop) = some depth' :=
          hc.level_source_brackets hkeys hbalanced
        rcases ih h.of_cons hrest with ⟨note, pos', later', hsuffix, hends, hdrop, hahead, hwritten⟩ |
          ⟨d, hd, hunbalanced, hopen⟩
        · refine .inl ⟨slice text pos c.start ++ (slice text c.start c.stop ++ note), pos', later',
            hsuffix.trans (List.suffix_cons c more), ?_, ?_, hahead, ?_⟩
          · rw [h.drop_eq]
            exact (ends_append_iff (by decide) (by decide) hlevel hslice).mpr ⟨_, rfl,
              (ends_append_iff (by decide) (by decide) hsource hc.source_closed).mpr ⟨_, rfl, hends⟩⟩
          · rw [h.drop_eq, hdrop]
            simp only [List.append_assoc]
          · rw [writtenFrom_cons, hwritten]
            simp only [List.append_assoc]
        · refine .inr ⟨d, List.mem_cons_of_mem c hd, hunbalanced, ?_⟩
          have hbehind := h.of_cons.behind d hd
          obtain ⟨hd', -⟩ := h.of_cons.each d hd
          have hsize := hd'.start_le_length
          rw [← Text.slice_append_slice text (h.behind c List.mem_cons_self)
              (hc.start_lt.le.trans hbehind) hsize,
            ← Text.slice_append_slice text hc.start_lt.le hbehind hsize, level_append hslice, hlevel,
            Option.bind_some, level_append hc.source_closed, hsource]
          exact hopen
      · exact .inr ⟨c, List.mem_cons_self, hbalanced, by simp [hlevel]⟩

/-- **A group is opened** where one is opened in the text, unless there are only blanks up to a
    citation. -/
theorem opened {opener : Char} {gap : Text} (h : Ahead text pos later) (hopener : opener ≠ '\\')
    (hgap : IsGap gap) (hwritten : writtenFrom text pos later = gap ++ opener :: rest) :
    (∃ pos', text.drop pos = gap ++ opener :: text.drop pos' ∧ Ahead text pos' later ∧
      writtenFrom text pos' later = rest ∧
      ∀ c ∈ later, slice text pos c.start = gap ++ opener :: slice text pos' c.start) ∨
    ∃ c ∈ later, IsGap (slice text pos c.start) := by
  have hclosed : escapedBehind false (gap ++ [opener]) = false :=
    Scan.escapedBehind_concat _ _ hopener
  have hwritten' : writtenFrom text pos later = gap ++ [opener] ++ rest := by
    rw [hwritten, List.append_assoc, List.singleton_append]
  rcases h.copied_or_crossed hwritten' hclosed with ⟨hdrop, hahead, hrest, hbehind⟩ |
    ⟨c, hc, hprefix, hne⟩
  · refine .inl ⟨_, ?_, hahead, hrest, fun c hc => ?_⟩
    · rw [hdrop, List.append_assoc, List.singleton_append]
    · rw [Text.slice_split hdrop (hbehind c hc), List.append_assoc, List.singleton_append]
  · exact .inr ⟨c, hc, hgap.of_prefix ((List.prefix_concat_iff.mp hprefix).resolve_left hne)⟩

/-- **A note is read** where one is read of the text. -/
theorem follows (h : Ahead text pos later)
    (hfollows : Follows '[' ']' (writtenFrom text pos later) note rest) :
    (∃ note' pos' later', later' <:+ later ∧
      Follows '[' ']' (text.drop pos) note' (text.drop pos') ∧ Ahead text pos' later' ∧
      rest = writtenFrom text pos' later') ∨
    ∃ c ∈ later, Joins c.keys (slice text pos c.start) := by
  obtain ⟨gap, hgap, hwritten, hcontent⟩ := hfollows
  rcases h.opened (by decide) hgap hwritten with ⟨start, hdrop, hahead, hrest, hslice⟩ | ⟨c, hc, hblank⟩
  · have hends : Ends '[' ']' 0 (writtenFrom text start later) note :=
      hrest ▸ isContent_iff_ends.mp hcontent
    rcases hahead.ends hends with ⟨note', pos', later', hsuffix, hends', hdrop', hahead', hrest'⟩ |
      ⟨c, hc, hunbalanced, hopen⟩
    · refine .inl ⟨note', pos', later', hsuffix, ?_, hahead', ?_⟩
      · exact ⟨gap, hgap, hdrop' ▸ hdrop, isContent_iff_ends.mpr (hdrop' ▸ hends')⟩
      · exact (List.cons.inj (List.append_cancel_left (hrest.symm.trans hrest'))).2
    · -- the citation stands in the note, and its keys end it
      refine .inr ⟨c, hc, .inr ⟨hunbalanced, gap, slice text start c.start, hgap, hslice c hc, ?_⟩⟩
      rwa [exists_content_iff_level (by decide) (by decide)]
  · exact .inr ⟨c, hc, .inl hblank⟩

/-- **Notes are read** where they are read of the text. -/
theorem notes (h : Ahead text pos later) (hnotes : Notes count t given behind)
    (hwritten : t = writtenFrom text pos later) :
    (∃ given' pos' later', later' <:+ later ∧ Notes count (text.drop pos) given' (text.drop pos') ∧
      Ahead text pos' later' ∧ behind = writtenFrom text pos' later' ∧
      ∀ c ∈ later', Notes count (slice text pos c.start) given' (slice text pos' c.start)) ∨
    ∃ c ∈ later, ∃ given' w, Notes count (slice text pos c.start) given' w ∧ Joins c.keys w := by
  induction hnotes generalizing pos later with
  | none => exact .inl ⟨[], pos, later, List.suffix_rfl, .none _, h, hwritten, fun _ _ => .none _⟩
  | note hnote _ ih =>
    rcases h.follows (hwritten ▸ hnote) with ⟨note', pos', later', hsuffix, hnote', hahead, hrest⟩ |
      ⟨c, hc, hjoins⟩
    · have hslice : ∀ c ∈ later', Follows '[' ']' (slice text pos c.start) note'
          (slice text pos' c.start) := fun c hc =>
        Follows.slice hnote' (hahead.behind c hc) (hahead.each c hc).1.start_le_length
      rcases ih hahead hrest with ⟨given', pos'', later'', hsuffix', hnotes, hahead', hrest', hcopied⟩ |
        ⟨c, hc, given', w, hnotes, hjoins⟩
      · exact .inl ⟨note' :: given', pos'', later'', hsuffix'.trans hsuffix, .note hnote' hnotes,
          hahead', hrest', fun c hc => .note (hslice c (hsuffix'.subset hc)) (hcopied c hc)⟩
      · exact .inr ⟨c, hsuffix.subset hc, note' :: given', w, .note (hslice c hc) hnotes, hjoins⟩
    · exact .inr ⟨c, hc, [], _, .none _, hjoins⟩

/-- **Keys are read** where they are read of the text. -/
theorem keys (h : Ahead text pos later)
    (hfollows : Follows '{' '}' (writtenFrom text pos later) inner rest) :
    (∃ keys rest', Follows '{' '}' (text.drop pos) keys rest') ∨
    ∃ c ∈ later, IsGap (slice text pos c.start) := by
  obtain ⟨gap, hgap, hwritten, hcontent⟩ := hfollows
  rcases h.opened (by decide) hgap hwritten with ⟨start, hdrop, hahead, hrest, -⟩ | hblank
  · have hlevel := (exists_content_iff_level (by decide) (by decide)).mp
      ⟨inner, rest, hrest, hcontent⟩
    rw [hahead.level_braces] at hlevel
    obtain ⟨keys, rest', hkeys, hcontent'⟩ :=
      (exists_content_iff_level (by decide) (by decide)).mpr hlevel
    exact .inl ⟨keys, rest', gap, hgap, hkeys ▸ hdrop, hcontent'⟩
  · exact .inr hblank

/-! ### Citations -/

/-- **A citation that is read where the text was copied** is one of the text, or it is unfinished
    there. -/
theorem reads (h : Ahead text pos later)
    (hreads : Reads (writtenFrom text pos later) name given inner rest) :
    (∃ d, IsCitation text d ∧ d.start = pos) ∨
      ∃ c ∈ later, Unfinished name c.keys (slice text pos c.start) := by
  obtain ⟨hname, star, tail, behind, hstar, hwritten, hnotes, hkeys⟩ := hreads
  rcases h.copied_or_crossed hwritten (command_closed hname hstar) with
    ⟨hdrop, hahead, rfl, hbehind⟩ | ⟨c, hc, hprefix, hne⟩
  · rcases hahead.notes hnotes rfl with
      ⟨given', pos', later', hsuffix, hnotes', hahead', rfl, hcopied⟩ |
        ⟨c, hc, given', w, hnotes', hjoins⟩
    · rcases hahead'.keys hkeys with ⟨keys, rest', hkeys'⟩ | ⟨c, hc, hgap⟩
      · have hreads : Reads (text.drop pos) name given' keys rest' :=
          ⟨hname, star, _, _, hstar, hdrop, hnotes', hkeys'⟩
        have hrest := List.suffix_iff_eq_drop.mp (hreads.behind.1.trans (List.drop_suffix pos text))
        exact .inl ⟨⟨pos, text.length - rest'.length, name, given', keys⟩,
          ⟨h.unescaped, hrest ▸ hreads, Nat.sub_le _ _⟩, rfl⟩
      · refine .inr ⟨c, hsuffix.subset hc, .notes hstar ?_ (hcopied c hc) (.inl hgap)⟩
        exact Text.slice_split hdrop (hbehind c (hsuffix.subset hc))
    · exact .inr ⟨c, hc, .notes hstar (Text.slice_split hdrop (hbehind c hc)) hnotes' hjoins⟩
  · refine .inr ⟨c, hc, .command ?_⟩
    rcases hstar with rfl | rfl
    · rwa [List.append_nil] at hprefix
    · exact (List.prefix_concat_iff.mp hprefix).resolve_left hne

/-- A backslash in what is copied up to the citations ahead. -/
theorem located_copied {a b : Text} (h : Ahead text pos later)
    (hwritten : writtenFrom text pos later = a ++ '\\' :: b) (ha : escapedBehind false a = false)
    (hdrop : text.drop pos = a ++ t) (hbehind : ∀ c ∈ later, pos + a.length < c.start) :
    ∃ pos', Ahead text pos' later ∧ (∀ c ∈ later, pos' < c.start) ∧ pos ≤ pos' ∧
      a = splice text pos pos' [] ∧ '\\' :: b = writtenFrom text pos' later := by
  have hbehind' : ∀ c ∈ later, pos + a.length ≤ c.start := fun c hc => (hbehind c hc).le
  refine ⟨pos + a.length, h.advance hdrop ha hbehind', hbehind, Nat.le_add_right _ _,
    (Text.slice_of_drop hdrop).symm, ?_⟩
  rw [writtenFrom_of_drop hdrop hbehind'] at hwritten
  exact (List.append_cancel_left hwritten).symm

/-- **Where a backslash of what is written comes from**: it was copied, or it stands in a note. -/
theorem located {a b : Text} (h : Ahead text pos later)
    (hwritten : writtenFrom text pos later = a ++ '\\' :: b) (ha : escapedBehind false a = false) :
    (∃ earlier later' pos', later = earlier ++ later' ∧ Ahead text pos' later' ∧
      (∀ c ∈ later', pos' < c.start) ∧ (∀ c ∈ earlier, c.stop ≤ pos') ∧ pos ≤ pos' ∧
      a = splice text pos pos' (earlier.map (Written.edit defaultCitationTemplates)) ∧
      '\\' :: b = writtenFrom text pos' later') ∨
    ∃ earlier c later' x y z v, later = earlier ++ c :: later' ∧
      a = splice text pos c.start (earlier.map (Written.edit defaultCitationTemplates)) ++ x ∧
      InNote c x ('\\' :: y) ∧ b = y ++ z :: v ∧ Text.isAsciiLetter z = false := by
  induction later generalizing pos a with
  | nil =>
    have hdrop : text.drop pos = a ++ '\\' :: b := writtenFrom_nil text pos ▸ hwritten
    obtain ⟨pos', hahead, hbehind, hpos', hcopied⟩ := h.located_copied hwritten ha hdrop nofun
    exact .inl ⟨[], [], pos', rfl, hahead, hbehind, nofun, hpos', hcopied⟩
  | cons c more ih =>
    obtain ⟨hc, hkeys⟩ := h.each c List.mem_cons_self
    have hslice := h.slice_closed List.mem_cons_self
    have hpieces := (writtenFrom_cons text pos c more).symm.trans hwritten
    rcases append_eq_append_cons hpieces with ⟨s, hcopied, -⟩ | ⟨a', rfl, hbehind⟩
    · have hdrop := h.drop_eq
      rw [hcopied, List.append_assoc] at hdrop
      have hprefix : a ++ ['\\'] <+: slice text pos c.start := ⟨s, by rw [hcopied]; simp⟩
      have hbehind : ∀ d ∈ c :: more, pos + a.length < d.start := by
        intro d hd
        simpa [Nat.lt_iff_add_one_le, Nat.add_assoc] using h.behind_prefix hprefix d hd
      obtain ⟨pos', hahead, hbehind, hpos', hcopied⟩ := h.located_copied hwritten ha hdrop hbehind
      exact .inl ⟨[], c :: more, pos', rfl, hahead, hbehind, nofun, hpos', hcopied⟩
    · rw [Scan.escapedBehind_append, hslice] at ha
      rcases append_eq_append_cons hbehind with ⟨s, hshown, rfl⟩ | ⟨a, rfl, hrest⟩
      · obtain ⟨y, z, v, hnote, rfl, hz⟩ := hc.inNote hkeys hshown ha
        exact .inr ⟨[], c, more, a', y, z, _, rfl, rfl, hnote, List.append_assoc .., hz⟩
      · rw [Scan.escapedBehind_append, hc.shown_closed hkeys] at ha
        rcases ih h.of_cons hrest ha with
          ⟨earlier, later', pos', rfl, hahead, hfree, hearlier, hpos', rfl, hwritten'⟩ |
          ⟨earlier, d, later', x, y, z, v, rfl, rfl, hnote, hb, hz⟩
        · refine .inl ⟨c :: earlier, later', pos', rfl, hahead, hfree,
            List.forall_mem_cons.mpr ⟨hpos', hearlier⟩, ?_, ?_, hwritten'⟩
          · exact (h.behind c List.mem_cons_self).trans (hc.start_lt.le.trans hpos')
          · exact (List.append_assoc ..).symm
        · refine .inr ⟨c :: earlier, d, later', x, y, z, v, rfl, ?_, hnote, hb, hz⟩
          simp [splice, Written.edit]

end Ahead

end

end TexMark.Citation
