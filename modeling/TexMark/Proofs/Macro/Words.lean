/-
  TexMark/Proofs/Macro/Words.lean
  ===============================
  **Control words and seams.**  A control word is a backslash that is not escaped, with all the
  letters behind it.  Where two texts are put together, the control words are those of the two,
  except at the seam: a command that is open at the end of the first text takes over the letters
  at the head of the second, and a lone backslash at the end escapes the one that follows.

    * `mem_controlWordsFrom_iff` — where a control word stands;
    * `controlWords_append`, `controlWords_flatten` — a control word of texts put together is one
      of theirs, or glued at a seam (`glued?`);
    * `controlWords_infix` — a piece cut out where no command begins or goes on has no control
      words of its own.
-/
import TexMark.Proofs.Scans

namespace TexMark.Markup

open Scan (escapedBehind)
open Text (isAsciiLetter)

/-! ### Control words -/

/-- The control words of a text; `escaped` says so of its first character. -/
def controlWordsFrom (escaped : Bool) : Text → List Text
  | [] => []
  | c :: t =>
    let name := t.takeWhile isAsciiLetter
    (if c == '\\' && !escaped && !name.isEmpty then [name] else []) ++
      controlWordsFrom (c == '\\' && !escaped) t

def controlWords (t : Text) : List Text := controlWordsFrom false t

/-- Some letters, and no letter behind them. -/
structure IsName (w rest : Text) : Prop where
  ne_nil : w ≠ []
  letters : ∀ c ∈ w, isAsciiLetter c
  ends : ∀ c ∈ rest.head?, ¬ isAsciiLetter c

variable {escaped : Bool} {t u v w : Text}

theorem takeWhile_letters (hw : ∀ c ∈ w, isAsciiLetter c) (hv : ∀ c ∈ v.head?, ¬ isAsciiLetter c) :
    (w ++ v).takeWhile isAsciiLetter = w := by
  have hstop : v.takeWhile isAsciiLetter = [] := by
    cases v with
    | nil => rfl
    | cons c v => exact List.takeWhile_cons_of_neg (hv c rfl)
  rw [List.takeWhile_append_of_pos hw, hstop, List.append_nil]

theorem isName_takeWhile (h : t.takeWhile isAsciiLetter ≠ []) :
    IsName (t.takeWhile isAsciiLetter) (t.dropWhile isAsciiLetter) :=
  ⟨h, fun _ hc => List.mem_takeWhile_imp hc, fun _ hc => Text.head?_dropWhile hc⟩

theorem mem_controlWordsFrom_iff : w ∈ controlWordsFrom escaped t ↔
    ∃ u v, t = u ++ '\\' :: (w ++ v) ∧ escapedBehind escaped u = false ∧ IsName w v := by
  induction t generalizing escaped with
  | nil => simp [controlWordsFrom]
  | cons c t ih =>
    rw [controlWordsFrom, List.mem_append, ih]
    constructor
    · rintro (hfirst | ⟨u, v, rfl, hu, hname⟩)
      · split at hfirst
        · rename_i h
          simp only [Bool.and_eq_true, beq_iff_eq, Bool.not_eq_true', List.isEmpty_eq_false_iff] at h
          obtain ⟨⟨rfl, hescaped⟩, hne⟩ := h
          rw [List.mem_singleton.mp hfirst]
          exact ⟨[], _, by rw [List.takeWhile_append_dropWhile]; rfl, hescaped, isName_takeWhile hne⟩
        · cases hfirst
      · exact ⟨c :: u, v, rfl, hu, hname⟩
    · rintro ⟨u, v, ht, hu, hname⟩
      cases u with
      | nil =>
        cases ht
        rw [escapedBehind] at hu
        have hescaped : escaped = false := hu
        have hne := hname.ne_nil
        rw [takeWhile_letters hname.letters hname.ends]
        exact .inl (by simp [hescaped, hne])
      | cons d u =>
        cases ht
        exact .inr ⟨u, v, rfl, hu, hname⟩

theorem mem_controlWords_iff : w ∈ controlWords t ↔
    ∃ u v, t = u ++ '\\' :: (w ++ v) ∧ escapedBehind false u = false ∧ IsName w v :=
  mem_controlWordsFrom_iff

def StandsAt (w t : Text) (pos : Nat) : Prop :=
  ∃ u v, t = u ++ '\\' :: (w ++ v) ∧ u.length = pos ∧ escapedBehind false u = false ∧ IsName w v

theorem mem_controlWords_iff_standsAt : w ∈ controlWords t ↔ ∃ pos, StandsAt w t pos := by
  rw [mem_controlWords_iff]
  constructor
  · rintro ⟨u, v, rfl, hu, hname⟩
    exact ⟨u.length, u, v, rfl, rfl, hu, hname⟩
  · rintro ⟨_, u, v, rfl, -, hu, hname⟩
    exact ⟨u, v, rfl, hu, hname⟩

theorem StandsAt.lt {pos : Nat} (h : StandsAt w t pos) : pos < t.length := by
  obtain ⟨u, v, rfl, rfl, -⟩ := h
  simp

/-- **A piece of a text** that begins unescaped and ends where no name goes on. -/
theorem StandsAt.of_infix {pre mid post : Text} {pos : Nat} (h : StandsAt w mid pos)
    (hpre : escapedBehind false pre = false) (hpost : ∀ c ∈ post.head?, ¬ isAsciiLetter c) :
    StandsAt w (pre ++ (mid ++ post)) (pre.length + pos) := by
  obtain ⟨u, v, rfl, rfl, hu, hname⟩ := h
  refine ⟨pre ++ u, v ++ post, by simp, by simp, ?_, hname.ne_nil, hname.letters, ?_⟩
  · rw [Scan.escapedBehind_append, hpre, hu]
  · cases v with
    | nil => exact hpost
    | cons c v => exact hname.ends

theorem controlWords_infix {pre mid post : Text} (hpre : escapedBehind false pre = false)
    (hpost : ∀ c ∈ post.head?, ¬ isAsciiLetter c) (hw : w ∈ controlWords mid) :
    w ∈ controlWords (pre ++ (mid ++ post)) := by
  obtain ⟨pos, hpos⟩ := mem_controlWords_iff_standsAt.mp hw
  exact mem_controlWords_iff_standsAt.mpr ⟨_, hpos.of_infix hpre hpost⟩

/-! ### Commands that are open at the end -/

/-- The letters of the command at the end of a text, if one is open there: a backslash that is
    not escaped, and letters only from there on. -/
def openWordFrom? (escaped : Bool) : Text → Option Text
  | [] => none
  | c :: t =>
    if c == '\\' && !escaped && t.all isAsciiLetter then some t
    else openWordFrom? (c == '\\' && !escaped) t

def openWord? (t : Text) : Option Text := openWordFrom? false t

theorem openWordFrom?_eq_some_iff : openWordFrom? escaped t = some w ↔
    ∃ u, t = u ++ '\\' :: w ∧ escapedBehind escaped u = false ∧ ∀ c ∈ w, isAsciiLetter c := by
  induction t generalizing escaped with
  | nil => simp [openWordFrom?]
  | cons c t ih =>
    rw [openWordFrom?]
    constructor
    · intro h
      split at h
      · rename_i hopen
        cases h
        simp only [Bool.and_eq_true, beq_iff_eq, Bool.not_eq_true', List.all_eq_true] at hopen
        obtain ⟨⟨rfl, hescaped⟩, hletters⟩ := hopen
        exact ⟨[], rfl, hescaped, hletters⟩
      · obtain ⟨u, rfl, hu, hletters⟩ := ih.mp h
        exact ⟨c :: u, rfl, hu, hletters⟩
    · rintro ⟨u, ht, hu, hletters⟩
      cases u with
      | nil =>
        cases ht
        have hescaped : escaped = false := hu
        exact if_pos (by simpa [hescaped] using hletters)
      | cons d u =>
        cases ht
        have hbackslash : isAsciiLetter '\\' = false := by decide
        rw [if_neg (by simp [hbackslash])]
        exact ih.mpr ⟨u, rfl, hu, hletters⟩

theorem openWord?_of_escapedBehind (h : escapedBehind false t = true) : openWord? t = some [] := by
  rcases List.eq_nil_or_concat t with rfl | ⟨u, c, rfl⟩
  · cases h
  · rw [List.concat_eq_append] at h ⊢
    have hlast : c = '\\' ∧ escapedBehind false u = false := by simpa using h
    obtain ⟨rfl, hu⟩ := hlast
    exact openWordFrom?_eq_some_iff.mpr ⟨u, rfl, hu, nofun⟩

/-! ### Seams -/

/-- What follows the pairs of backslashes at the head of a text. -/
def pairsDropped : Text → Text
  | '\\' :: '\\' :: t => pairsDropped t
  | t => t

/-- The letters with which an open command goes on.  A lone backslash takes the escapes away from
    the backslashes that follow. -/
def lettersBehind (openWord rest : Text) : Text :=
  (if openWord = [] then pairsDropped rest else rest).takeWhile isAsciiLetter

/-- The control word that comes about at the seam of two texts, if the command that is open at the
    end of the first goes on in the second. -/
def glued? (front rest : Text) : Option Text :=
  (openWord? front).bind fun w =>
    if lettersBehind w rest = [] then none else some (w ++ lettersBehind w rest)

theorem glued?_of_open {more : Text} (hopen : openWord? u = some w)
    (hmore : lettersBehind w t = more) (hne : more ≠ []) : glued? u t = some (w ++ more) := by
  rw [glued?, hopen, Option.bind_some, hmore, if_neg hne]

theorem pairsDropped_of_name (h : IsName w v) : pairsDropped (w ++ v) = w ++ v := by
  obtain ⟨c, w, rfl⟩ := List.exists_cons_of_ne_nil h.ne_nil
  have hc := Text.ne_backslash_of_isAsciiLetter (h.letters c List.mem_cons_self)
  rw [List.cons_append, pairsDropped]
  intro t hpair
  exact hc (List.cons.inj hpair).1

/-- Where the state of the escapes makes a difference, there are backslashes only, an odd number of
    them. -/
theorem pairsDropped_of_shifted (t : Text) : ∀ u, escapedBehind true u = false →
    escapedBehind false u = true → pairsDropped (u ++ '\\' :: t) = pairsDropped t
  | [], h, _ => by cases h
  | [c], _, h' => by
    have hc : c = '\\' := by simpa using h'
    rw [hc]
    rfl
  | c :: d :: u, h, h' => by
    by_cases hc : c = '\\'
    · subst hc
      by_cases hd : d = '\\'
      · subst hd
        exact pairsDropped_of_shifted t u (by simpa using h) (by simpa using h')
      · simp only [Scan.escapedBehind_cons, beq_false_of_ne hd, Bool.false_and] at h h'
        rw [h] at h'
        cases h'
    · simp only [Scan.escapedBehind_cons, beq_false_of_ne hc, Bool.false_and] at h h'
      rw [h] at h'
      cases h'

theorem lettersBehind_of_name {more : Text} (h : IsName more v) :
    lettersBehind w (more ++ v) = more := by
  rw [lettersBehind, pairsDropped_of_name h, ite_self, takeWhile_letters h.letters h.ends]

/-- **Two texts put together**: a control word stands in one of them, or is glued at the seam. -/
theorem controlWords_append {front rest : Text} (h : w ∈ controlWords (front ++ rest)) :
    w ∈ controlWords front ∨ w ∈ controlWords rest ∨ glued? front rest = some w := by
  obtain ⟨u, v, heq, hu, hname⟩ := mem_controlWords_iff.mp h
  rcases List.append_eq_append_iff.mp heq with ⟨between, rfl, rfl⟩ | ⟨tail, rfl, htail⟩
  · -- the backslash stands in the second text
    rw [Scan.escapedBehind_append] at hu
    cases hfront : escapedBehind false front with
    | false =>
      rw [hfront] at hu
      exact .inr (.inl (mem_controlWords_iff.mpr ⟨between, v, rfl, hu, hname⟩))
    | true =>
      rw [hfront] at hu
      cases hbetween : escapedBehind false between with
      | false => exact .inr (.inl (mem_controlWords_iff.mpr ⟨between, v, rfl, hbetween, hname⟩))
      | true =>
        have hdropped := pairsDropped_of_shifted (w ++ v) between hu hbetween
        have hletters : lettersBehind [] (between ++ '\\' :: (w ++ v)) = w := by
          rw [lettersBehind, if_pos rfl, hdropped, pairsDropped_of_name hname,
            takeWhile_letters hname.letters hname.ends]
        exact .inr (.inr
          (glued?_of_open (openWord?_of_escapedBehind hfront) hletters hname.ne_nil))
  · cases tail with
    | nil =>
      -- it is the first character of the second text
      rw [List.nil_append] at htail
      rw [List.append_nil]
      exact .inr (.inl (mem_controlWords_iff.mpr ⟨[], v, htail.symm, rfl, hname⟩))
    | cons c tail =>
      obtain ⟨rfl, hsplit⟩ := List.cons.inj htail
      rcases List.append_eq_append_iff.mp hsplit with ⟨after, rfl, rfl⟩ | ⟨more, rfl, rfl⟩
      · refine .inl (mem_controlWords_iff.mpr ⟨u, after, rfl, hu, hname.ne_nil, hname.letters, ?_⟩)
        cases after with
        | nil => exact nofun
        | cons d after => exact hname.ends
      · by_cases hmore : more = []
        · subst hmore
          rw [List.append_nil]
          refine .inl (mem_controlWords_iff.mpr ⟨u, [], by simp, hu, ?_, ?_, nofun⟩)
          · simpa using hname.ne_nil
          · simpa using hname.letters
        · have hopen : openWord? (u ++ '\\' :: tail) = some tail :=
            openWordFrom?_eq_some_iff.mpr ⟨u, rfl, hu, fun c hc =>
              hname.letters c (List.mem_append_left more hc)⟩
          have hrest : IsName more v :=
            ⟨hmore, fun c hc => hname.letters c (List.mem_append_right tail hc), hname.ends⟩
          exact .inr (.inr (glued?_of_open hopen (lettersBehind_of_name hrest) hmore))

def gluedWords : List Text → List Text
  | [] => []
  | piece :: pieces => (glued? piece pieces.flatten).toList ++ gluedWords pieces

theorem controlWords_flatten {pieces : List Text} (h : w ∈ controlWords pieces.flatten) :
    (∃ piece ∈ pieces, w ∈ controlWords piece) ∨ w ∈ gluedWords pieces := by
  induction pieces with
  | nil => cases h
  | cons piece pieces ih =>
    rw [List.flatten_cons] at h
    rcases controlWords_append h with hfirst | hrest | hglued
    · exact .inl ⟨piece, List.mem_cons_self, hfirst⟩
    · rcases ih hrest with ⟨piece', hpiece', hw⟩ | hglued
      · exact .inl ⟨piece', List.mem_cons_of_mem piece hpiece', hw⟩
      · exact .inr (List.mem_append_right _ hglued)
    · refine .inr (List.mem_append_left _ ?_)
      rw [hglued]
      exact List.mem_singleton_self w

/-! ### Seams where nothing is glued -/

theorem glued?_of_closed (h : openWord? u = none) (t : Text) : glued? u t = none := by
  rw [glued?, h]
  rfl

/-- In front of what is no letter, only a lone backslash could be glued. -/
theorem glued?_of_head (hu : escapedBehind false u = false)
    (ht : ∀ c ∈ t.head?, ¬ isAsciiLetter c) : glued? u t = none := by
  cases hopen : openWord? u with
  | none => exact glued?_of_closed hopen t
  | some w =>
    have hw : w ≠ [] := by
      rintro rfl
      obtain ⟨front, rfl, hfront, -⟩ := openWordFrom?_eq_some_iff.mp hopen
      simp [hfront] at hu
    have hmore : lettersBehind w t = [] := by
      rw [lettersBehind, if_neg hw]
      cases t with
      | nil => rfl
      | cons c t => exact List.takeWhile_cons_of_neg (ht c rfl)
    rw [glued?, hopen, Option.bind_some, if_pos hmore]

end TexMark.Markup
