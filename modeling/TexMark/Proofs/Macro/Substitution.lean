/-
  TexMark/Proofs/Macro/Substitution.lean
  ======================================
  **One pass is one substitution.**  The pass of a macro replaces each invocation, with the
  arguments that it consumes, by the body with these arguments put in as they are written; it reads
  nothing of what it has put in.

    * `argumentsOf_eq_iff` — what an invocation consumes: the groups that follow, each behind
      blanks and one line break at most, until one is missing;
    * `substitute_eq_parts` — a body is a row of characters, doubled hash signs and parameters,
      and each of these is shown on its own (`IsReading.eq_parts`: there is one such row);
    * `AreCalls.subset` — a text determines which calls of the macro are made in it;
    * `substitution_of_expand` — what a pass writes and reports, invocation by invocation.
-/
import TexMark.Proofs.Macro.Shadowing
import Mathlib.Data.List.Chain

namespace TexMark.Macro

open Definition (isName)
open TexMark.Group (Follows)
open Markup (StandsAt)

variable {m : Macro} {text : Text}

/-! ### Arguments -/

/-- The arguments that are **given** at the head of a text, and what stands behind them: groups in
    braces, until there are enough of them or one is missing. -/
inductive Gives : Nat → Text → List Text → Text → Prop
  | enough (t : Text) : Gives 0 t [] t
  | missing {count : Nat} {t : Text} (h : ∀ arg rest, ¬ Follows '{' '}' t arg rest) :
      Gives (count + 1) t [] t
  | group {count : Nat} {t arg rest after : Text} {args : List Text}
      (h : Follows '{' '}' t arg rest) (hrest : Gives count rest args after) :
      Gives (count + 1) t (arg :: args) after

/-- What an invocation **consumes** of the text behind its name: its arguments, and where the text
    goes on.  A macro with a default takes its first argument from a group in brackets, and without
    one it takes the default. -/
inductive Consumes (m : Macro) (t : Text) : List Text → Text → Prop
  | required {args : List Text} {after : Text} (hdefault : m.default? = none)
      (h : Gives m.arity t args after) : Consumes m t args after
  | optional {first rest after : Text} {args : List Text} (hdefault : m.default?.isSome)
      (hfirst : Follows '[' ']' t first rest) (h : Gives (m.arity - 1) rest args after) :
      Consumes m t (first :: args) after
  | default {value after : Text} {args : List Text} (hdefault : m.default? = some value)
      (hfirst : ∀ first rest, ¬ Follows '[' ']' t first rest)
      (h : Gives (m.arity - 1) t args after) : Consumes m t (value :: args) after

theorem arguments_eq_iff {count : Nat} {t after : Text} {args : List Text} :
    arguments count t = (args, after) ↔ Gives count t args after := by
  induction count generalizing t args with
  | zero =>
    constructor
    · intro h
      cases h
      exact .enough _
    · rintro ⟨⟩
      rfl
  | succ count ih =>
    rw [arguments]
    cases hread : Group.braces? (Group.skipSpaces t) with
    | none =>
      have hmissing : ∀ arg rest, ¬ Follows '{' '}' t arg rest := by
        intro arg rest hfollows
        rw [Group.braces?_skipSpaces_eq_some_iff.mpr hfollows] at hread
        cases hread
      constructor
      · intro h
        cases h
        exact .missing hmissing
      · intro h
        cases h with
        | missing => rfl
        | group hfollows => exact absurd hfollows (hmissing _ _)
    | some found =>
      obtain ⟨arg, rest⟩ := found
      have hfollows := Group.braces?_skipSpaces_eq_some_iff.mp hread
      constructor
      · intro h
        cases h
        exact .group hfollows (ih.mp rfl)
      · intro h
        cases h with
        | missing hmissing => exact absurd hfollows (hmissing _ _)
        | group hfollows' hrest =>
          have hsame := hread.symm.trans (Group.braces?_skipSpaces_eq_some_iff.mpr hfollows')
          cases hsame
          simp [ih.mpr hrest]

theorem argumentsOf_eq_iff {t after : Text} {args : List Text} :
    m.argumentsOf t = (args, after) ↔ m.Consumes t args after := by
  unfold argumentsOf
  cases hdefault : m.default? with
  | none =>
    rw [arguments_eq_iff]
    constructor
    · exact .required hdefault
    · intro h
      cases h with
      | required _ h => exact h
      | optional hsome => simp [hdefault] at hsome
      | default hsome => simp [hdefault] at hsome
  | some value =>
    cases hread : Group.brackets? (Group.skipSpaces t) with
    | none =>
      have hmissing : ∀ first rest, ¬ Follows '[' ']' t first rest := by
        intro first rest hfollows
        rw [Group.brackets?_skipSpaces_eq_some_iff.mpr hfollows] at hread
        cases hread
      constructor
      · intro h
        cases h
        exact .default hdefault hmissing (arguments_eq_iff.mp rfl)
      · intro h
        cases h with
        | required hnone => simp [hdefault] at hnone
        | optional _ hfirst => exact absurd hfirst (hmissing _ _)
        | default hvalue _ h =>
          rw [hdefault] at hvalue
          cases hvalue
          simp [arguments_eq_iff.mpr h]
    | some found =>
      obtain ⟨first, rest⟩ := found
      have hfollows := Group.brackets?_skipSpaces_eq_some_iff.mp hread
      constructor
      · intro h
        cases h
        exact .optional (by simp [hdefault]) hfollows (arguments_eq_iff.mp rfl)
      · intro h
        cases h with
        | required hnone => simp [hdefault] at hnone
        | default _ hmissing => exact absurd hfollows (hmissing _ _)
        | optional _ hfirst h =>
          have hsame := hread.symm.trans (Group.brackets?_skipSpaces_eq_some_iff.mpr hfirst)
          cases hsame
          simp [arguments_eq_iff.mpr h]

/-! ### Bodies -/

/-- A **part** of a body: a character, a doubled hash sign, or the place of an argument. -/
inductive Part
  | literal (c : Char)
  | hash
  | parameter (index : Fin 9)
deriving DecidableEq

namespace Part

/-- A part as the body has it; parameters count from one. -/
def written : Part → Text
  | literal c => [c]
  | hash => "##"
  | parameter index => '#' :: Text.ofNat (index + 1)

/-- What a part becomes: an argument stands as it is written, and a missing one is empty. -/
def shown (args : List Text) : Part → Text
  | literal c => [c]
  | hash => "#"
  | parameter index => (args[(index : Nat)]?).getD []

end Part

theorem toNat_of_digit {c : Char} (h : '1' ≤ c ∧ c ≤ '9') : 49 ≤ c.toNat ∧ c.toNat ≤ 57 :=
  ⟨UInt32.le_iff_toNat_le.mp h.1, UInt32.le_iff_toNat_le.mp h.2⟩

/-- The parameter that a digit stands for. -/
def digit? (c : Char) : Option (Fin 9) :=
  if h : '1' ≤ c ∧ c ≤ '9' then some ⟨c.toNat - 49, by have := toNat_of_digit h; omega⟩ else none

/-- The parts of a body, from left to right. -/
def parts : Text → List Part
  | [] => []
  | '#' :: '#' :: rest => .hash :: parts rest
  | '#' :: c :: rest =>
    match digit? c with
    | some index => .parameter index :: parts rest
    | none => .literal '#' :: parts (c :: rest)
  | c :: rest => .literal c :: parts rest

/-- A hash sign that stands for itself is **lone**: neither a second one follows, nor a digit. -/
def IsLone (p next : Part) : Prop :=
  p = .literal '#' → ∃ c, next = .literal c ∧ c ≠ '#' ∧ digit? c = none

/-- The parts that a body is **read** as. -/
structure IsReading (body : Text) (ps : List Part) : Prop where
  written : ps.flatMap Part.written = body
  lone : ps.IsChain IsLone

theorem digit?_eq_some_iff {c : Char} {index : Fin 9} :
    digit? c = some index ↔ Text.ofNat (index + 1) = [c] := by
  have hdigits : ∀ index : Fin 9, Text.ofNat (index + 1) = [Char.ofNat (index + 49)] ∧
      digit? (Char.ofNat (index + 49)) = some index := by
    decide
  constructor
  · intro h
    obtain ⟨hrange, hindex⟩ := Option.dite_none_right_eq_some.mp h
    have hcode : c.toNat = index + 49 := by
      have := toNat_of_digit hrange
      have := congrArg Fin.val (Option.some.inj hindex)
      dsimp only at this
      omega
    rw [(hdigits index).1, ← hcode, Char.ofNat_toNat]
  · intro h
    rw [(hdigits index).1] at h
    rw [← List.singleton_inj.mp h]
    exact (hdigits index).2

theorem exists_digit (index : Fin 9) : ∃ c, Text.ofNat (index + 1) = [c] ∧ c ≠ '#' := by
  have hdigits : ∀ index : Fin 9, (Text.ofNat (index + 1)).length = 1 ∧
      '#' ∉ Text.ofNat (index + 1) := by
    decide
  obtain ⟨hlength, hhash⟩ := hdigits index
  obtain ⟨c, hc⟩ := List.length_eq_one_iff.mp hlength
  refine ⟨c, hc, ?_⟩
  rintro rfl
  exact hhash (hc ▸ List.mem_cons_self)

theorem parts_cons {c : Char} (hc : c ≠ '#') (rest : Text) :
    parts (c :: rest) = .literal c :: parts rest := by
  rw [parts]
  · rintro _ rfl
    exact absurd rfl hc
  · rintro _ _ rfl
    exact absurd rfl hc

theorem parts_hash {c : Char} (hc : c ≠ '#') (rest : Text) :
    parts ('#' :: c :: rest) = match digit? c with
      | some index => .parameter index :: parts rest
      | none => .literal '#' :: parts (c :: rest) := by
  rw [parts]
  exact hc

theorem isReading_parts (body : Text) : IsReading body (parts body) := by
  fun_induction parts body with
  | case1 => exact ⟨rfl, .nil⟩
  | case2 rest ih =>
    exact ⟨congrArg ("##".toList ++ ·) ih.written, ih.lone.cons nofun⟩
  | case3 c rest hc index hdigit ih =>
    refine ⟨?_, ih.lone.cons nofun⟩
    rw [List.flatMap_cons, Part.written, digit?_eq_some_iff.mp hdigit, ih.written]
    rfl
  | case4 c rest hc hdigit ih =>
    refine ⟨congrArg ('#' :: ·) ih.written, ?_⟩
    rw [parts_cons hc] at ih ⊢
    refine .cons_cons ?_ ih.lone
    exact fun _ => ⟨c, rfl, hc, hdigit⟩
  | case5 c rest hpair hhash ih =>
    refine ⟨congrArg (c :: ·) ih.written, ?_⟩
    cases rest with
    | nil => exact .singleton _
    | cons d rest =>
      refine ih.lone.cons ?_
      intro _ _ hsame
      cases hsame
      exact (hhash d rest rfl rfl).elim

/-- **A body is read in one way only.** -/
theorem IsReading.eq_parts {body : Text} {ps : List Part} (h : IsReading body ps) :
    ps = parts body := by
  obtain ⟨rfl, hlone⟩ := h
  induction ps with
  | nil => rfl
  | cons p ps ih =>
    have hrest := ih (List.isChain_cons.mp hlone).2
    rw [List.flatMap_cons]
    cases p with
    | hash => exact congrArg (Part.hash :: ·) hrest
    | parameter index =>
      obtain ⟨c, hc, hhash⟩ := exists_digit index
      rw [Part.written, hc, List.cons_append, List.singleton_append, parts_hash hhash,
        digit?_eq_some_iff.mpr hc, ← hrest]
    | literal c =>
      by_cases hhash : c = '#'
      · subst hhash
        cases ps with
        | nil => rfl
        | cons next ps =>
          obtain ⟨d, rfl, hd, hdigit⟩ := (List.isChain_cons_cons.mp hlone).1 rfl
          rw [List.flatMap_cons] at hrest ⊢
          simp only [Part.written, List.singleton_append] at hrest ⊢
          rw [parts_hash hd, hdigit, ← hrest]
      · exact (congrArg (Part.literal c :: ·) hrest).trans (parts_cons hhash _).symm

/-- **What is put in for a body**, part by part. -/
theorem substitute_eq_parts (args : List Text) (body : Text) :
    substitute args body = (parts body).flatMap (Part.shown args) := by
  fun_induction parts body with
  | case1 => rfl
  | case2 rest ih => exact congrArg ('#' :: ·) ih
  | case3 c rest hc index hdigit ih =>
    obtain ⟨hrange, hindex⟩ := Option.dite_none_right_eq_some.mp hdigit
    rw [substitute, if_pos hrange, ih, ← Option.some.inj hindex]
    · rfl
    · exact hc
  | case4 c rest hc hdigit ih =>
    have hrange : ¬ ('1' ≤ c ∧ c ≤ '9') := fun h => by simp [digit?, h] at hdigit
    rw [substitute, if_neg hrange, ih]
    · rfl
    · exact hc
  | case5 c rest hpair hhash ih =>
    rw [substitute, ih]
    · rfl
    · exact hpair
    · exact hhash

/-! ### Calls -/

/-- A **call**: where it begins and where its arguments end, and the arguments. -/
structure Call where
  start : Nat
  stop : Nat
  args : List Text

/-- The call is an invocation of the macro, with all the arguments that it consumes. -/
structure IsCall (m : Macro) (text : Text) (c : Call) : Prop where
  stands : StandsAt m.name text c.start
  consumes : m.Consumes (text.drop (c.start + m.name.length + 1)) c.args (text.drop c.stop)
  ends : c.stop ≤ text.length

/-- The leftmost calls that do not overlap: an invocation that begins none of them lies in the
    arguments of one. -/
structure AreCalls (m : Macro) (text : Text) (calls : List Call) : Prop where
  each : ∀ c ∈ calls, m.IsCall text c
  apart : calls.Pairwise fun a b => a.stop ≤ b.start
  leftmost : ∀ pos, StandsAt m.name text pos → ∃ c ∈ calls, c.start ≤ pos ∧ pos < c.stop

def call (m : Macro) (text : Text) (h : Hit Unit) : Call :=
  ⟨h.start, m.stopAt text h, m.argsAt text h⟩

theorem Gives.length_le {count : Nat} {t after : Text} {args : List Text}
    (h : Gives count t args after) : args.length ≤ count := by
  induction h with
  | enough => exact Nat.le_refl 0
  | missing => exact Nat.zero_le _
  | group _ _ ih => exact Nat.succ_le_succ ih

theorem Consumes.length_le {t after : Text} {args : List Text} (h : m.Consumes t args after)
    (hdefault : m.default?.isSome → 1 ≤ m.arity) : args.length ≤ m.arity := by
  cases h with
  | required _ h => exact h.length_le
  | optional hsome _ h =>
    have := h.length_le
    have := hdefault hsome
    rw [List.length_cons]
    omega
  | default hvalue _ h =>
    have := h.length_le
    have := hdefault (by simp [hvalue])
    rw [List.length_cons]
    omega

theorem taken_sublist (m : Macro) (text : Text) (cursor : Nat) (hs : List (Hit Unit)) :
    (m.taken text cursor hs).Sublist hs := by
  induction hs generalizing cursor with
  | nil => exact .slnil
  | cons h hs ih =>
    rw [taken]
    split
    · exact (ih cursor).cons h
    · exact (ih _).cons_cons h

theorem isCall_of_mem (hname : isName m.name) {h : Hit Unit} (hmem : h ∈ m.invocations text) :
    m.IsCall text (m.call text h) := by
  have hhit := (m.taken_sublist text 0 _).subset hmem
  obtain ⟨hread, -, -, hsize⟩ := read_of_mem_hits hhit
  have hbehind : text.drop (h.start + m.name.length + 1) = text.drop h.stop := by
    rw [Nat.add_assoc, ← List.drop_drop, hread]
    exact List.drop_left
  have hafter : (m.argumentsOf (text.drop h.stop)).2 = text.drop (m.stopAt text h) :=
    List.suffix_iff_eq_drop.mp ((m.argumentsOf_suffix _).trans (List.drop_suffix _ _))
  refine ⟨standsAt_of_mem_taken hname (fun _ h => h) hmem, ?_, hsize⟩
  have hconsumes : m.Consumes (text.drop h.stop) (m.argsAt text h)
      (text.drop (m.stopAt text h)) := argumentsOf_eq_iff.mp (Prod.ext rfl hafter)
  rwa [← hbehind] at hconsumes

theorem areCalls_invocations (hname : isName m.name) (text : Text) :
    m.AreCalls text ((m.invocations text).map (m.call text)) := by
  refine ⟨?_, ?_, ?_⟩
  · intro c hc
    obtain ⟨h, hmem, rfl⟩ := List.mem_map.mp hc
    exact isCall_of_mem hname hmem
  · exact List.pairwise_map.mpr
      (List.pairwise_map.mp (inTurn_invocations m text).ordered.2.pairwise)
  · intro pos hpos
    obtain ⟨h, hmem, hbounds⟩ := exists_invocation (Definition.not_mem_of_isName hname) hpos
    exact ⟨m.call text h, List.mem_map_of_mem hmem, hbounds⟩

theorem IsCall.start_lt {c : Call} (h : m.IsCall text c) : c.start < c.stop := by
  have hsuffix := m.argumentsOf_suffix (text.drop (c.start + m.name.length + 1))
  rw [argumentsOf_eq_iff.mpr h.consumes] at hsuffix
  have hlength := hsuffix.length_le
  have := h.stands.lt
  have := h.ends
  simp only [List.length_drop] at hlength
  omega

theorem IsCall.eq_of_start {c c' : Call} (h : m.IsCall text c) (h' : m.IsCall text c')
    (hstart : c.start = c'.start) : c = c' := by
  have hsame := (argumentsOf_eq_iff.mpr h.consumes).symm.trans
    (hstart ▸ argumentsOf_eq_iff.mpr h'.consumes)
  obtain ⟨hargs, hafter⟩ := Prod.mk.inj hsame
  have hlength := congrArg List.length hafter
  have hends := h.ends
  have hends' := h'.ends
  rw [List.length_drop, List.length_drop] at hlength
  have hstop : c.stop = c'.stop := by omega
  cases c
  cases c'
  exact Call.mk.injEq .. ▸ ⟨hstart, hstop, hargs⟩

/-- **A text determines its calls**: one begins wherever an invocation stands that none before it
    covers. -/
theorem AreCalls.subset {calls calls' : List Call} (h : m.AreCalls text calls)
    (h' : m.AreCalls text calls') {c : Call} (hmem : c ∈ calls) : c ∈ calls' := by
  have hcall := h.each c hmem
  obtain ⟨c', hmem', hle, hlt⟩ := h'.leftmost c.start hcall.stands
  rcases Nat.eq_or_lt_of_le hle with hstart | hstart
  · exact (h'.each c' hmem').eq_of_start hcall hstart ▸ hmem'
  · -- the call that covers the place is one of the first list as well, but these are apart
    have hne : c' ≠ c := by
      rintro rfl
      exact Nat.lt_irrefl _ hstart
    have := hcall.start_lt
    rcases apart_of_pairwise h.apart (h'.subset h hmem') hmem hne with hbefore | hbehind <;> omega
termination_by c.start

/-- **A pass is one substitution.**  It puts the body in for each call, with the arguments as they
    are written, and copies everything else; and it reports the calls with too few arguments. -/
theorem substitution_of_expand (hname : isName m.name)
    (hdefault : m.default?.isSome → 1 ≤ m.arity) (text : Text) :
    ∃ calls ps, m.AreCalls text calls ∧ IsReading m.body ps ∧
      (∀ c ∈ calls, c.args.length ≤ m.arity) ∧
      m.expand text =
        ⟨(calls.filter fun c => c.args.length < m.arity).map fun c =>
            ⟨.arityMismatch, '\\' :: m.name ++ " expects " ++ Text.ofNat m.arity ++
              " argument(s), got " ++ Text.ofNat c.args.length, c.start⟩,
          .ok (Edit.splice text 0 text.length (calls.map fun c =>
            ⟨c.start, c.stop, ps.flatMap (Part.shown c.args)⟩))⟩ := by
  have hcalls := areCalls_invocations hname text
  have hcount : ∀ c ∈ (m.invocations text).map (m.call text), c.args.length ≤ m.arity :=
    fun c hc => (hcalls.each c hc).consumes.length_le hdefault
  refine ⟨_, _, hcalls, isReading_parts m.body, hcount, ?_⟩
  have hedits : ((m.invocations text).map (m.call text)).map (fun c : Call =>
      (⟨c.start, c.stop, (parts m.body).flatMap (Part.shown c.args)⟩ : Edit)) =
      (m.invocations text).map (m.edit text) := by
    rw [List.map_map]
    exact List.map_congr_left fun h _ => congrArg _ (substitute_eq_parts _ _).symm
  have hshort : ∀ h ∈ m.invocations text,
      decide ((m.argsAt text h).length ≠ m.arity) =
        decide ((m.argsAt text h).length < m.arity) := by
    intro h hmem
    have hle : (m.argsAt text h).length ≤ m.arity := hcount _ (List.mem_map_of_mem hmem)
    exact decide_eq_decide.mpr ⟨fun hne => by omega, fun hlt => by omega⟩
  rw [expand_eq, hedits, mismatches, List.filter_congr hshort, List.filter_map, List.map_map]
  rfl

/-- A default, a group in brackets, and an invocation in an argument, which is left as it is. -/
theorem substitution_of_greetings :
    let greet : Macro := ⟨"greet", 2, "#1, #2##", some "World"⟩
    let text : Text := "\\greet{hi} \\greet[Bob] " ++ Text.braced "\\greet#1" ++ " \\greet"
    isName greet.name ∧ (greet.default?.isSome → 1 ≤ greet.arity) ∧
      (∃ calls ps, greet.AreCalls text calls ∧ IsReading greet.body ps ∧
        (greet.expand text).result = .ok (Edit.splice text 0 text.length (calls.map fun c =>
          ⟨c.start, c.stop, ps.flatMap (Part.shown c.args)⟩))) ∧
      greet.expand text =
        ⟨[⟨.arityMismatch, "\\greet expects 2 argument(s), got 1", 34⟩],
          .ok "World, hi# Bob, \\greet#1# World, #"⟩ := by
  intro greet text
  have hname : isName greet.name := by decide
  have hdefault : greet.default?.isSome → 1 ≤ greet.arity := by decide
  obtain ⟨calls, ps, hcalls, hreading, -, hexpand⟩ := substitution_of_expand hname hdefault text
  refine ⟨hname, hdefault, ⟨calls, ps, hcalls, hreading, ?_⟩, ?_⟩
  · rw [hexpand]
  · have hnotes : greet.mismatches text (greet.invocations text) =
        [⟨.arityMismatch, "\\greet expects 2 argument(s), got 1", 34⟩] := by
      decide +kernel
    have hshown : Edit.splice text 0 text.length ((greet.invocations text).map (greet.edit text)) =
        "World, hi# Bob, \\greet#1# World, #" := by
      decide +kernel
    rw [expand_eq, hnotes, hshown]

end TexMark.Macro
