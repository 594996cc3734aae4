/-
  TexMark/Proofs/Macro/Expansion.lean
  ===================================
  **One pass of macro expansion.**  A pass puts texts together: what it copies from the document,
  what stands in the body between the parameters, and the arguments.  These are the fragments of
  its result (`result_expand`).  None of them brings a control word of its own
  (`controlWords_of_fragment`):

    * a body is read into literal texts and parameters (`template`, `substitute_eq`), and the
      control words of the literal texts are those of the body;
    * an argument is a group of the document (`HoldsGroup`), or the default;
    * what is copied begins where no backslash is open, and ends where no name goes on
      (`Copied`).
-/
import TexMark.Proofs.Groups
import TexMark.Proofs.Macro.Words
import TexMark.Proofs.Passes

namespace TexMark

open Scan (escapedBehind)
open Text (isAsciiLetter slice)
open Markup (controlWords controlWordsFrom)

theorem Text.take_append_slice (t : Text) {a b : Nat} (h : a ≤ b) :
    t.take a ++ (slice t a b ++ t.drop b) = t := by
  have htake : (t.take b).take a = t.take a := by rw [List.take_take, Nat.min_eq_left h]
  rw [slice, ← List.append_assoc, ← htake, List.take_append_drop, List.take_append_drop]

/-! ### Groups -/

namespace Group

/-- A text **holds** a group: two characters that belong to no command enclose it, and in it every
    backslash has its character. -/
def Holds (t inner : Text) : Prop :=
  ∃ front opener closer behind, t = front ++ opener :: (inner ++ closer :: behind) ∧
    opener ≠ '\\' ∧ isAsciiLetter closer = false ∧ escapedBehind false inner = false

/-- What has been **reached** from the beginning of a text: no backslash is open there. -/
def Reached (t after : Text) : Prop := ∃ u, t = u ++ after ∧ escapedBehind false u = false

theorem Holds.of_suffix {t rest inner : Text} (h : Holds rest inner) (hrest : rest <:+ t) :
    Holds t inner := by
  obtain ⟨front, opener, closer, behind, rfl, hgroup⟩ := h
  obtain ⟨u, rfl⟩ := hrest
  exact ⟨u ++ front, opener, closer, behind, by simp, hgroup⟩

theorem Holds.controlWords {t inner w : Text} (h : Holds t inner) (hw : w ∈ controlWords inner) :
    w ∈ controlWords t := by
  obtain ⟨front, opener, closer, behind, rfl, hopener, hcloser, -⟩ := h
  have hfront : escapedBehind false (front ++ [opener]) = false :=
    Scan.escapedBehind_concat false front hopener
  have hends : ∀ c ∈ (closer :: behind).head?, ¬ isAsciiLetter c := by
    intro c hc
    cases hc
    simp [hcloser]
  have hpiece := Markup.controlWords_infix hfront hends hw
  rwa [List.append_assoc] at hpiece

theorem Reached.refl (t : Text) : Reached t t := ⟨[], rfl, rfl⟩

theorem Reached.trans {t middle after : Text} (h : Reached t middle) (hafter : Reached middle after) :
    Reached t after := by
  obtain ⟨u, rfl, hu⟩ := h
  obtain ⟨v, rfl, hv⟩ := hafter
  exact ⟨u ++ v, by simp, by rw [Scan.escapedBehind_append, hu, hv]⟩

theorem read?_skipSpaces_spec {opener closer : Char} (hne : opener ≠ closer)
    (hopener : opener ≠ '\\') (hcloser : closer ≠ '\\' ∧ isAsciiLetter closer = false)
    {t inner rest : Text} (h : read? opener closer (skipSpaces t) = some (inner, rest)) :
    Holds t inner ∧ Reached t rest := by
  obtain ⟨blanks, hblanks⟩ := skipSpaces_suffix t
  have hgroup := eq_of_read?_eq_some h
  have hinner := ((read?_eq_some_iff hne hopener hcloser.1).mp h).2.closed
  constructor
  · refine Holds.of_suffix ?_ (skipSpaces_suffix t)
    exact ⟨[], opener, closer, rest, hgroup, hopener, hcloser.2, hinner⟩
  · refine ⟨blanks ++ (opener :: inner ++ [closer]), ?_, ?_⟩
    · rw [← hblanks, hgroup]
      simp
    · rw [← List.append_assoc]
      exact Scan.escapedBehind_concat false _ hcloser.1

end Group

namespace Macro

open TexMark.Group (Holds Reached)

/-! ### Arguments -/

theorem arguments_spec (count : Nat) (t : Text) :
    (∀ arg ∈ (arguments count t).1, Holds t arg) ∧ Reached t (arguments count t).2 := by
  induction count generalizing t with
  | zero => exact ⟨fun _ harg => absurd harg List.not_mem_nil, .refl t⟩
  | succ count ih =>
    rw [arguments]
    split
    · exact ⟨fun _ harg => absurd harg List.not_mem_nil, .refl t⟩
    · rename_i arg rest hgroup
      obtain ⟨hholds, hreached⟩ :=
        Group.read?_skipSpaces_spec (by decide) (by decide) (by decide) hgroup
      obtain ⟨hargs, hafter⟩ := ih rest
      have hrest : rest <:+ t := (Group.read?_skipSpaces_behind hgroup).1
      constructor
      · intro arg' harg'
        rcases List.mem_cons.mp harg' with rfl | harg'
        · exact hholds
        · exact (hargs arg' harg').of_suffix hrest
      · exact hreached.trans hafter

theorem argumentsOf_spec (m : Macro) (t : Text) :
    (∀ arg ∈ (m.argumentsOf t).1, Holds t arg ∨ m.default? = some arg) ∧
      Reached t (m.argumentsOf t).2 := by
  unfold argumentsOf
  cases m.default? with
  | none =>
    obtain ⟨hargs, hafter⟩ := arguments_spec m.arity t
    exact ⟨fun arg harg => .inl (hargs arg harg), hafter⟩
  | some value =>
    cases hfirst : Group.brackets? (Group.skipSpaces t) with
    | none =>
      obtain ⟨hargs, hafter⟩ := arguments_spec (m.arity - 1) t
      refine ⟨?_, hafter⟩
      intro arg harg
      rcases List.mem_cons.mp harg with rfl | harg
      · exact .inr rfl
      · exact .inl (hargs arg harg)
    | some first =>
      obtain ⟨arg, rest⟩ := first
      obtain ⟨hholds, hreached⟩ :=
        Group.read?_skipSpaces_spec (by decide) (by decide) (by decide) hfirst
      obtain ⟨hargs, hafter⟩ := arguments_spec (m.arity - 1) rest
      have hrest : rest <:+ t := (Group.read?_skipSpaces_behind hfirst).1
      refine ⟨?_, hreached.trans hafter⟩
      intro arg' harg'
      rcases List.mem_cons.mp harg' with rfl | harg'
      · exact .inl hholds
      · exact .inl ((hargs arg' harg').of_suffix hrest)

/-! ### Bodies -/

/-- A body, read: the literal text in front of the first parameter, and for each parameter the
    index of its argument with the literal text behind it. -/
def template : Text → Text × List (Nat × Text)
  | [] => ([], [])
  | '#' :: '#' :: rest => ('#' :: (template rest).1, (template rest).2)
  | '#' :: c :: rest =>
    if '1' ≤ c ∧ c ≤ '9' then ([], (c.toNat - 49, (template rest).1) :: (template rest).2)
    else ('#' :: (template (c :: rest)).1, (template (c :: rest)).2)
  | c :: rest => (c :: (template rest).1, (template rest).2)

def literals (body : Text) : List Text := (template body).1 :: (template body).2.map (·.2)

def filled (args : List Text) (body : Text) : List Text :=
  (template body).1 :: (template body).2.flatMap fun p => [(args[p.1]?).getD [], p.2]

theorem substitute_eq (args : List Text) (body : Text) :
    substitute args body = (filled args body).flatten := by
  unfold filled
  fun_induction template body with
  | case1 => rfl
  | case2 rest ih => simp [substitute, ih]
  | case3 c rest hc hparameter ih =>
    rw [substitute, if_pos hparameter, ih]
    · simp
    · exact hc
  | case4 c rest hc hparameter ih =>
    rw [substitute, if_neg hparameter, ih]
    · simp
    · exact hc
  | case5 c rest hpair hhash ih =>
    rw [substitute, ih]
    · simp
    · exact hpair
    · exact hhash

theorem mem_filled {args : List Text} {body fragment : Text} (h : fragment ∈ filled args body) :
    fragment ∈ literals body ∨ fragment ∈ args ∨ fragment = [] := by
  rcases List.mem_cons.mp h with rfl | h
  · exact .inl List.mem_cons_self
  · obtain ⟨p, hp, hfragment⟩ := List.mem_flatMap.mp h
    rcases List.mem_cons.mp hfragment with rfl | hfragment
    · cases harg : args[p.1]? with
      | none => exact .inr (.inr rfl)
      | some arg => exact .inr (.inl (List.mem_of_getElem? harg))
    · rw [List.mem_singleton.mp hfragment]
      exact .inl (List.mem_cons_of_mem _ (List.mem_map_of_mem hp))

theorem letters_template (body : Text) :
    (template body).1.takeWhile isAsciiLetter = body.takeWhile isAsciiLetter := by
  have hhash : isAsciiLetter '#' = false := by decide
  fun_induction template body with
  | case1 => rfl
  | case2 rest ih => simp [hhash]
  | case3 c rest hc hparameter ih => simp [hhash]
  | case4 c rest hc hparameter ih => simp [hhash]
  | case5 c rest hpair hparameter ih => simp only [List.takeWhile_cons, ih]

/-- The literal texts of a body begin as the body does, or behind a parameter. -/
theorem controlWordsFrom_template (escaped : Bool) (body : Text) :
    (∀ w ∈ controlWordsFrom escaped (template body).1, w ∈ controlWordsFrom escaped body) ∧
      ∀ p ∈ (template body).2, ∀ w ∈ controlWords p.2, w ∈ controlWordsFrom escaped body := by
  -- a hash sign begins no command, and escapes nothing
  have hhash : ∀ (escaped : Bool) (t : Text),
      controlWordsFrom escaped ('#' :: t) = controlWordsFrom false t := fun _ _ => rfl
  fun_induction template body generalizing escaped with
  | case1 => exact ⟨fun _ hw => hw, fun _ hp => absurd hp List.not_mem_nil⟩
  | case2 rest ih =>
    rw [hhash, hhash, hhash]
    exact ih false
  | case3 c rest hc hparameter ih =>
    have hdigit : c ≠ '\\' := by
      rintro rfl
      revert hparameter
      decide
    have hrest : controlWordsFrom escaped ('#' :: c :: rest) = controlWordsFrom false rest := by
      rw [hhash, controlWordsFrom, beq_false_of_ne hdigit]
      rfl
    obtain ⟨hfirst, hothers⟩ := ih false
    rw [hrest]
    constructor
    · intro w hw
      exact absurd hw List.not_mem_nil
    · intro p hp
      rcases List.mem_cons.mp hp with rfl | hp
      · exact hfirst
      · exact hothers p hp
  | case4 c rest hc hparameter ih =>
    rw [hhash, hhash]
    exact ih false
  | case5 c rest hpair hparameter ih =>
    obtain ⟨hfirst, hothers⟩ := ih (c == '\\' && !escaped)
    simp only [controlWordsFrom, letters_template]
    constructor
    · intro w hw
      rcases List.mem_append.mp hw with hw | hw
      · exact List.mem_append_left _ hw
      · exact List.mem_append_right _ (hfirst w hw)
    · intro p hp w hw
      exact List.mem_append_right _ (hothers p hp w hw)

theorem controlWords_of_literal {body literal w : Text} (h : literal ∈ literals body)
    (hw : w ∈ controlWords literal) : w ∈ controlWords body := by
  obtain ⟨hfirst, hothers⟩ := controlWordsFrom_template false body
  rcases List.mem_cons.mp h with rfl | h
  · exact hfirst w hw
  · obtain ⟨p, hp, rfl⟩ := List.mem_map.mp h
    exact hothers p hp w hw

/-! ### Invocations -/

def argsAt (m : Macro) (text : Text) (h : Hit Unit) : List Text :=
  (m.argumentsOf (text.drop h.stop)).1

def stopAt (m : Macro) (text : Text) (h : Hit Unit) : Nat :=
  text.length - (m.argumentsOf (text.drop h.stop)).2.length

/-- The invocations that a pass takes, from a cursor on: those that are not escaped and do not
    belong to the arguments of the last. -/
def taken (m : Macro) (text : Text) (cursor : Nat) : List (Hit Unit) → List (Hit Unit)
  | [] => []
  | h :: hs =>
    if h.start < cursor ∨ Scan.isEscaped text h.start then m.taken text cursor hs
    else h :: m.taken text (m.stopAt text h) hs

def invocations (m : Macro) (text : Text) : List (Hit Unit) :=
  m.taken text 0 (Scan.hits m.invocation text)

def edit (m : Macro) (text : Text) (h : Hit Unit) : Edit :=
  ⟨h.start, m.stopAt text h, substitute (m.argsAt text h) m.body⟩

variable {m : Macro} {text : Text} {cursor : Nat} {hs : List (Hit Unit)}

/-- What is reported of an invocation whose arguments are not as many as they should be. -/
def mismatch (m : Macro) (text : Text) (h : Hit Unit) : Diagnostic :=
  ⟨.arityMismatch, '\\' :: m.name ++ " expects " ++ Text.ofNat m.arity ++ " argument(s), got " ++
    Text.ofNat (m.argsAt text h).length, h.start⟩

def mismatches (m : Macro) (text : Text) (hs : List (Hit Unit)) : List Diagnostic :=
  (hs.filter fun h => (m.argsAt text h).length ≠ m.arity).map (m.mismatch text)

/-- **One step of a pass**, for an invocation that it takes. -/
theorem expandHit_eq {s : Progress} {h : Hit Unit}
    (hreached : ¬ (h.start < s.cursor ∨ Scan.isEscaped text h.start)) :
    expandHit m text s h =
      ⟨m.mismatches text [h], .ok ⟨m.stopAt text h, s.edits ++ [m.edit text h]⟩⟩ := by
  have hargs : (m.argumentsOf (text.drop h.stop)).1 = m.argsAt text h := rfl
  rw [expandHit, if_neg hreached]
  dsimp only
  rw [hargs]
  by_cases hcount : (m.argsAt text h).length = m.arity
  · rw [if_neg (not_not.mpr hcount), mismatches, List.filter_cons_of_neg (by simpa using hcount)]
    rfl
  · rw [if_pos hcount, mismatches, List.filter_cons_of_pos (by simpa using hcount)]
    rfl

/-- **A run of a pass** from a cursor on. -/
theorem foldlM_expandHit (m : Macro) (text : Text) (hs : List (Hit Unit)) (s : Progress) :
    ∃ cursor, hs.foldlM (expandHit m text) s = ⟨m.mismatches text (m.taken text s.cursor hs),
      .ok ⟨cursor, s.edits ++ (m.taken text s.cursor hs).map (m.edit text)⟩⟩ := by
  induction hs generalizing s with
  | nil => exact ⟨s.cursor, by simp [taken, mismatches]; rfl⟩
  | cons h hs ih =>
    rw [List.foldlM_cons, taken]
    by_cases hskip : h.start < s.cursor ∨ Scan.isEscaped text h.start
    · have hstep : expandHit m text s h = pure s := if_pos hskip
      rw [hstep, pure_bind, if_pos hskip]
      exact ih s
    · obtain ⟨cursor, hrest⟩ := ih ⟨m.stopAt text h, s.edits ++ [m.edit text h]⟩
      refine ⟨cursor, ?_⟩
      rw [expandHit_eq hskip, Noted.bind_of_ok rfl, hrest, if_neg hskip]
      simp [mismatches, ← List.map_append, ← List.filter_append]

/-- Invocations that stand **in turn**: each begins unescaped, behind the arguments of the one
    before it. -/
inductive InTurn (m : Macro) (text : Text) : Nat → List (Hit Unit) → Prop
  | nil {cursor : Nat} (h : cursor ≤ text.length) : InTurn m text cursor []
  | cons {cursor : Nat} {h : Hit Unit} {hs : List (Hit Unit)} (hcursor : cursor ≤ h.start)
    (hescaped : Scan.isEscaped text h.start = false)
    (hread : text.drop h.start = '\\' :: m.name ++ text.drop h.stop)
    (hstart : h.start < m.stopAt text h) (hrest : InTurn m text (m.stopAt text h) hs) :
    InTurn m text cursor (h :: hs)

theorem read_of_mem_hits {h : Hit Unit} (hmem : h ∈ Scan.hits m.invocation text) :
    text.drop h.start = '\\' :: m.name ++ text.drop h.stop ∧
      Markup.nameEnds (text.drop h.stop) = true ∧ h.start < m.stopAt text h ∧
      m.stopAt text h ≤ text.length := by
  obtain ⟨hread, hlt, hstop⟩ := Scan.hit_spec m.advances_invocation hmem
  obtain ⟨after, hword, heq⟩ := Option.map_eq_some_iff.mp hread
  obtain ⟨-, rfl⟩ := Prod.mk.inj heq
  obtain ⟨hname, hends⟩ := Option.filter_eq_some_iff.mp hword
  exact ⟨Text.dropPrefix?_eq_some_iff.mp hname, hends,
    Hit.bounds_of_suffix hlt hstop (m.argumentsOf_suffix (text.drop h.stop))⟩

theorem inTurn_taken (hcursor : cursor ≤ text.length)
    (hhits : ∀ h ∈ hs, h ∈ Scan.hits m.invocation text) :
    InTurn m text cursor (m.taken text cursor hs) := by
  induction hs generalizing cursor with
  | nil => exact .nil hcursor
  | cons h hs ih =>
    have hhits' : ∀ h' ∈ hs, h' ∈ Scan.hits m.invocation text :=
      fun h' hmem => hhits h' (List.mem_cons_of_mem h hmem)
    rw [taken]
    split
    · exact ih hcursor hhits'
    · rename_i hreached
      obtain ⟨hname, -, hstart, hsize⟩ := read_of_mem_hits (hhits h List.mem_cons_self)
      rw [not_or] at hreached
      exact .cons (Nat.le_of_not_lt hreached.1) (by simpa using hreached.2) hname hstart
        (ih hsize hhits')

theorem InTurn.ordered (h : InTurn m text cursor hs) :
    cursor ≤ text.length ∧ Edit.Ordered cursor text.length (hs.map (m.edit text)) := by
  induction h with
  | nil h => exact ⟨h, .nil⟩
  | @cons cursor h hs hcursor hescaped hread hstart hrest ih =>
    obtain ⟨hsize, hordered⟩ := ih
    have hfirst : Edit.Ordered cursor (m.stopAt text h) [m.edit text h] :=
      .singleton hcursor hstart (Nat.le_refl _)
    have hlt : h.start < m.stopAt text h := hstart
    exact ⟨by omega, hfirst.append hordered (Nat.le_refl _) (by omega) hsize⟩

theorem inTurn_invocations (m : Macro) (text : Text) : InTurn m text 0 (m.invocations text) :=
  inTurn_taken (Nat.zero_le _) fun _ h => h

/-! ### Fragments -/

/-- What a pass puts together, from a cursor on: what is copied in front of each invocation, the
    fragments of its body, and what is copied behind the last. -/
def fragmentsFrom (m : Macro) (text : Text) (cursor : Nat) : List (Hit Unit) → List Text
  | [] => [slice text cursor text.length]
  | h :: hs => slice text cursor h.start ::
      (filled (m.argsAt text h) m.body ++ m.fragmentsFrom text (m.stopAt text h) hs)

def fragments (m : Macro) (text : Text) : List Text :=
  m.fragmentsFrom text 0 (m.invocations text)

def expanded (m : Macro) (text : Text) : Text := (m.fragments text).flatten

theorem splice_eq_fragments (m : Macro) (text : Text) (cursor : Nat) (hs : List (Hit Unit)) :
    Edit.splice text cursor text.length (hs.map (m.edit text)) =
      (m.fragmentsFrom text cursor hs).flatten := by
  induction hs generalizing cursor with
  | nil => simp [Edit.splice, fragmentsFrom]
  | cons h hs ih =>
    rw [List.map_cons, Edit.splice, edit, ih, substitute_eq, fragmentsFrom, List.flatten_cons,
      List.flatten_append, List.append_assoc]

/-- **What a pass writes and reports.** -/
theorem expand_eq (m : Macro) (text : Text) :
    m.expand text = ⟨m.mismatches text (m.invocations text),
      .ok (Edit.splice text 0 text.length ((m.invocations text).map (m.edit text)))⟩ := by
  obtain ⟨cursor, hs⟩ := foldlM_expandHit m text (Scan.hits m.invocation text) ⟨0, []⟩
  exact Noted.bind_edited_of_eq hs Progress.edits (inTurn_invocations m text).ordered.2

theorem result_expand (m : Macro) (text : Text) :
    (m.expand text).result = .ok (m.expanded text) := by
  rw [expand_eq, splice_eq_fragments]
  rfl

/-! ### Control words of fragments -/

/-- The name of a macro **closes** its command: no backslash is open behind an invocation. -/
def Closes (name : Text) : Prop := escapedBehind false ('\\' :: name) = false

instance decidableCloses (name : Text) : Decidable (Closes name) :=
  inferInstanceAs (Decidable (_ = _))

/-- A piece of the text that a pass **copies**: it begins where no backslash is open, no name goes
    on behind it, and it lies outside of the invocations. -/
structure Copied (m : Macro) (text : Text) (hs : List (Hit Unit)) (start stop : Nat) : Prop where
  le : start ≤ stop
  begins : escapedBehind false (text.take start) = false
  ends : ∀ c ∈ (text.drop stop).head?, ¬ isAsciiLetter c
  outside : ∀ h ∈ hs, m.stopAt text h ≤ start ∨ stop ≤ h.start

theorem Copied.controlWords {start stop : Nat} (h : Copied m text hs start stop) {w : Text}
    (hw : w ∈ controlWords (slice text start stop)) : w ∈ controlWords text := by
  have hpiece := Markup.controlWords_infix h.begins h.ends hw
  rwa [Text.take_append_slice text h.le] at hpiece

theorem escapedBehind_stopAt (hname : Closes m.name) {h : Hit Unit}
    (hescaped : Scan.isEscaped text h.start = false)
    (hread : text.drop h.start = '\\' :: m.name ++ text.drop h.stop) :
    escapedBehind false (text.take (m.stopAt text h)) = false := by
  obtain ⟨u, hu, hclear⟩ := (m.argumentsOf_spec (text.drop h.stop)).2
  have htext : text = (text.take h.start ++ ('\\' :: m.name ++ u)) ++
      (m.argumentsOf (text.drop h.stop)).2 := by
    conv_lhs => rw [← List.take_append_drop h.start text, hread, hu]
    simp
  have hstop : m.stopAt text h = (text.take h.start ++ ('\\' :: m.name ++ u)).length := by
    have hlength := congrArg List.length htext
    rw [List.length_append] at hlength
    unfold stopAt
    omega
  have htake : text.take (m.stopAt text h) = text.take h.start ++ ('\\' :: m.name ++ u) := by
    rw [hstop]
    exact (congrArg (List.take _) htext).trans List.take_left
  rw [htake, Scan.escapedBehind_append, Scan.escapedBehind_append, ← Scan.isEscaped_eq, hescaped,
    hname, hclear]

theorem InTurn.cursor_le (h : InTurn m text cursor hs) : ∀ h' ∈ hs, cursor ≤ h'.start := by
  induction h with
  | nil => exact nofun
  | cons hcursor _ _ hstart _ ih =>
    refine List.forall_mem_cons.mpr ⟨hcursor, ?_⟩
    intro h' hmem
    have := ih h' hmem
    omega

/-- **What a pass puts together**: pieces of the text, literal texts of the body, and arguments. -/
theorem mem_fragmentsFrom (hname : Closes m.name) (h : InTurn m text cursor hs)
    (hcursor : escapedBehind false (text.take cursor) = false) {fragment : Text}
    (hfragment : fragment ∈ m.fragmentsFrom text cursor hs) :
    (∃ start stop, fragment = slice text start stop ∧ cursor ≤ start ∧
      Copied m text hs start stop) ∨
    fragment ∈ literals m.body ∨ (∃ h ∈ hs, fragment ∈ m.argsAt text h) ∨ fragment = [] := by
  induction h with
  | nil hsize =>
    rw [List.mem_singleton.mp hfragment]
    refine .inl ⟨_, _, rfl, Nat.le_refl _, hsize, hcursor, ?_, nofun⟩
    rw [List.drop_length]
    exact nofun
  | @cons cursor h hs hle hescaped hread hstart hrest ih =>
    -- the piece in front of the invocation, the body, and what comes behind
    rcases List.mem_cons.mp hfragment with rfl | hfragment
    · refine .inl ⟨_, _, rfl, Nat.le_refl _, hle, hcursor, ?_, ?_⟩
      · rw [hread]
        intro c hc
        cases hc
        decide
      · refine List.forall_mem_cons.mpr ⟨.inr (Nat.le_refl _), ?_⟩
        intro h' hmem
        have := hrest.cursor_le h' hmem
        exact .inr (by omega)
    · rcases List.mem_append.mp hfragment with hfragment | hfragment
      · rcases mem_filled hfragment with hliteral | harg | hnil
        · exact .inr (.inl hliteral)
        · exact .inr (.inr (.inl ⟨h, List.mem_cons_self, harg⟩))
        · exact .inr (.inr (.inr hnil))
      · have hclear := escapedBehind_stopAt hname hescaped hread
        rcases ih hclear hfragment with ⟨start, stop, hslice, hbehind, hcopied⟩ | hliteral |
          ⟨h', hmem, harg⟩ | hnil
        · refine .inl ⟨start, stop, hslice, by omega, hcopied.le, hcopied.begins, hcopied.ends, ?_⟩
          exact List.forall_mem_cons.mpr ⟨.inl hbehind, hcopied.outside⟩
        · exact .inr (.inl hliteral)
        · exact .inr (.inr (.inl ⟨h', List.mem_cons_of_mem h hmem, harg⟩))
        · exact .inr (.inr (.inr hnil))

theorem controlWords_of_arg {h : Hit Unit} {arg w : Text} (harg : arg ∈ m.argsAt text h)
    (hw : w ∈ controlWords arg) :
    w ∈ controlWords text ∨ ∃ value ∈ m.default?, w ∈ controlWords value := by
  rcases (m.argumentsOf_spec (text.drop h.stop)).1 arg harg with hholds | hdefault
  · exact .inl ((hholds.of_suffix (List.drop_suffix _ _)).controlWords hw)
  · exact .inr ⟨arg, hdefault, hw⟩

/-- The control words that the definition of a macro is written with. -/
def Brings (m : Macro) (w : Text) : Prop :=
  w ∈ controlWords m.body ∨ ∃ value ∈ m.default?, w ∈ controlWords value

theorem controlWords_of_fragment (hname : Closes m.name) {fragment w : Text}
    (hfragment : fragment ∈ m.fragments text) (hw : w ∈ controlWords fragment) :
    w ∈ controlWords text ∨ m.Brings w := by
  rcases mem_fragmentsFrom hname (inTurn_invocations m text) rfl hfragment with
    ⟨start, stop, rfl, -, hcopied⟩ | hliteral | ⟨h, -, harg⟩ | rfl
  · exact .inl (hcopied.controlWords hw)
  · exact .inr (.inl (controlWords_of_literal hliteral hw))
  · rcases controlWords_of_arg harg hw with htext | hdefault
    · exact .inl htext
    · exact .inr (.inr hdefault)
  · cases hw

end Macro

end TexMark
