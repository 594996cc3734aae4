/-
  TexMark/Proofs/Macro/Collection.lean
  ====================================
  **Every defining command is accounted for.**  The collection goes over a text once, and each
  defining command of it has one of three fates: it lies in a definition taken out before, it
  begins one that is taken out, or it stays and is reported.

    * `mem_hits_of_isCommand` — no defining command is missed, whatever stands around it;
    * `mem_reached_iff` — the commands that the collection reaches are those that lie in no
      definition taken out before;
    * `accounted_of_collect` — what is taken out, what is reported, what is left of the text,
      and the table of the macros, all of one and the same list of definitions.
-/
import Mathlib.Data.Bool.AllAny
import TexMark.Proofs.Definitions
import TexMark.Proofs.Scans

namespace TexMark

namespace Definition

open Noted

/-! ### Defining commands -/

/-- A **defining command** of a text: it can be read there, and it is not escaped. -/
structure IsCommand (text : Text) (h : Hit Head) : Prop where
  read : head (text.take h.start).reverse (text.drop h.start) = some (h.value, text.drop h.stop)
  lt : h.start < h.stop
  le : h.stop ≤ text.length
  unescaped : Scan.isEscaped text h.start = false

/-- What a defining command is written with, behind its backslash. -/
def IsNamePart (c : Char) : Prop := Text.isAsciiLetter c ∨ c = '*'

instance (c : Char) : Decidable (IsNamePart c) := inferInstanceAs (Decidable (_ ∨ _))

theorem exists_starred (head : Bool → Head) {name : Text}
    (hname : name.all fun c => decide (IsNamePart c)) {t after : Text} {value : Head}
    (h : (Markup.command? name t).map (fun rest => (head (Markup.star rest).1,
      (Markup.star rest).2)) = some (value, after)) :
    ∃ w, t = '\\' :: w ++ after ∧ ∀ c ∈ w, IsNamePart c := by
  obtain ⟨rest, hrest, heq⟩ := Option.map_eq_some_iff.mp h
  cases heq
  obtain rfl := Text.dropPrefix?_eq_some_iff.mp hrest
  rw [List.all_iff_forall_prop] at hname
  unfold Markup.star
  split
  · refine ⟨name ++ ['*'], by simp, ?_⟩
    exact List.forall_mem_append.mpr ⟨hname, List.forall_mem_singleton.mpr (by decide)⟩
  · exact ⟨name, rfl, hname⟩

theorem exists_of_head {before t after : Text} {value : Head}
    (h : head before t = some (value, after)) :
    ∃ w, t = '\\' :: w ++ after ∧ ∀ c ∈ w, IsNamePart c := by
  simp only [head, Option.orElse_eq_orElse, Option.orElse_eq_or, Option.or_eq_some_iff] at h
  rcases h with h | ⟨-, h | ⟨-, h | ⟨-, h | ⟨-, h⟩⟩⟩⟩
  · exact exists_starred (fun _ => .newcommand) (by decide) h
  · exact exists_starred (fun _ => .renewcommand) (by decide) h
  · exact exists_starred (fun _ => .providecommand) (by decide) h
  · exact exists_starred .operator (by decide) h
  · obtain ⟨rest, hrest, heq⟩ := Option.map_eq_some_iff.mp h
    cases heq
    exact ⟨"def".toList, Text.dropPrefix?_eq_some_iff.mp (Option.filter_eq_some_iff.mp hrest).1,
      List.all_iff_forall_prop.mp (by decide)⟩

theorem oneCommand_head : Scan.OneCommand head := by
  intro before t value after h
  obtain ⟨w, htext, hw⟩ := exists_of_head h
  exact ⟨w, htext, fun hmem => absurd (hw _ hmem) (by decide)⟩

theorem isCommand_iff {text : Text} {h : Hit Head} :
    IsCommand text h ↔ h ∈ Scan.hits head text ∧ Scan.isEscaped text h.start = false := by
  constructor
  · intro hcommand
    exact ⟨Scan.mem_hits_of_read oneCommand_head hcommand.read hcommand.lt hcommand.le,
      hcommand.unescaped⟩
  · rintro ⟨hmem, hescaped⟩
    obtain ⟨hread, hlt, hle⟩ := Scan.hit_spec advances_head hmem
    exact ⟨hread, hlt, hle, hescaped⟩

/-! ### The commands that are reached -/

/-- A definition that is **taken** out of a text: the command that begins it, the macro that it
    defines, and where it ends. -/
structure Taken where
  command : Hit Head
  entry : Macro
  stop : Nat

def Taken.range (d : Taken) : Nat × Nat := (d.command.start, d.stop)

/-- The definitions that some commands begin. -/
def takenOf (text : Text) (hs : List (Hit Head)) : List Taken :=
  hs.filterMap fun h => (accepted? text h).map fun r => ⟨h, r.1, r.2⟩

/-- The commands of which no definition can be taken. -/
def rejectedOf (text : Text) (hs : List (Hit Head)) : List (Hit Head) :=
  hs.filter fun h => (accepted? text h).isNone

theorem mem_takenOf_iff {text : Text} {hs : List (Hit Head)} {d : Taken} :
    d ∈ takenOf text hs ↔ d.command ∈ hs ∧ accepted? text d.command = some (d.entry, d.stop) := by
  simp only [takenOf, List.mem_filterMap, Option.map_eq_some_iff]
  constructor
  · rintro ⟨h, hmem, ⟨m, stop⟩, haccepted, rfl⟩
    exact ⟨hmem, haccepted⟩
  · rintro ⟨hmem, haccepted⟩
    exact ⟨d.command, hmem, _, haccepted, rfl⟩

theorem mem_rejectedOf_iff {text : Text} {hs : List (Hit Head)} {h : Hit Head} :
    h ∈ rejectedOf text hs ↔ h ∈ hs ∧ accepted? text h = none := by
  simp [rejectedOf]

theorem takenOf_cons (text : Text) (h : Hit Head) (hs : List (Hit Head)) :
    takenOf text (h :: hs) = takenOf text [h] ++ takenOf text hs := by
  rw [takenOf, ← List.singleton_append, List.filterMap_append]
  rfl

theorem rejectedOf_cons (text : Text) (h : Hit Head) (hs : List (Hit Head)) :
    rejectedOf text (h :: hs) = rejectedOf text [h] ++ rejectedOf text hs := by
  rw [rejectedOf, ← List.singleton_append, List.filter_append]
  rfl

/-- What a defining command takes out goes on behind the command. -/
theorem lt_stop_of_accepted? {text : Text} {h : Hit Head} {m : Macro} {stop : Nat}
    (haccepted : accepted? text h = some (m, stop)) :
    h.stop < stop ∧ stop ≤ text.length := by
  obtain ⟨⟨draft, after⟩, hdraft, hmacro⟩ := Option.bind_eq_some_iff.mp haccepted
  obtain ⟨m', -, heq⟩ := Option.map_eq_some_iff.mp hmacro
  cases heq
  have hlt : after.length < text.length - h.stop := by
    rw [← List.length_drop]
    exact (draft?_behind hdraft).2
  dsimp only
  omega

section Reached

variable {text : Text} {hs : List (Hit Head)} {cursor : Nat}

theorem reached_sublist (text : Text) (cursor : Nat) (hs : List (Hit Head)) :
    (reached text cursor hs).Sublist hs := by
  induction hs generalizing cursor with
  | nil => exact List.Sublist.refl _
  | cons h hs ih =>
    rw [reached]
    split
    · exact (ih cursor).cons h
    · exact (ih _).cons_cons h

/-- A command that is reached is no escaped one, and stands behind the cursor. -/
theorem isCommand_of_mem_reached (hhits : ∀ h ∈ hs, h ∈ Scan.hits head text) {h : Hit Head}
    (hmem : h ∈ reached text cursor hs) : IsCommand text h ∧ cursor ≤ h.start := by
  induction hs generalizing cursor with
  | nil => cases hmem
  | cons first hs ih =>
    obtain ⟨hfirst, hhits⟩ := List.forall_mem_cons.mp hhits
    rw [reached] at hmem
    split at hmem
    · exact ih hhits hmem
    · rename_i hreached
      rw [not_or, Nat.not_lt, Bool.not_eq_true] at hreached
      have hcommand := isCommand_iff.mpr ⟨hfirst, hreached.2⟩
      rcases List.mem_cons.mp hmem with rfl | hmem
      · exact ⟨hcommand, hreached.1⟩
      · obtain ⟨hcommand', hcursor⟩ := ih hhits hmem
        refine ⟨hcommand', ?_⟩
        cases haccepted : accepted? text first with
        | none => simpa [haccepted] using hcursor
        | some r =>
          have hlt := (lt_stop_of_accepted? haccepted).1
          have hcursor : r.2 ≤ h.start := by simpa [haccepted] using hcursor
          have := hcommand.lt
          omega

/-- **The commands that are reached lie apart**, and so do the definitions that they begin. -/
theorem pairwise_reached (hhits : ∀ h ∈ hs, h ∈ Scan.hits head text)
    (hsorted : hs.Pairwise fun a b => a.stop ≤ b.start ∧ a.start < b.start) :
    (reached text cursor hs).Pairwise fun a b => a.stop ≤ b.start ∧ a.start < b.start ∧
      ∀ m stop, accepted? text a = some (m, stop) → stop ≤ b.start := by
  induction hs generalizing cursor with
  | nil => exact .nil
  | cons first hs ih =>
    obtain ⟨hfirst, hhits⟩ := List.forall_mem_cons.mp hhits
    obtain ⟨hbehind, hsorted⟩ := List.pairwise_cons.mp hsorted
    rw [reached]
    split
    · exact ih hhits hsorted
    · refine List.pairwise_cons.mpr ⟨?_, ih hhits hsorted⟩
      intro h hmem
      obtain ⟨hstop, hstart⟩ := hbehind h ((reached_sublist text _ hs).subset hmem)
      refine ⟨hstop, hstart, ?_⟩
      intro m stop haccepted
      simpa [haccepted] using (isCommand_of_mem_reached hhits hmem).2

/-- **What is not reached** is escaped, or lies in a definition that is taken out. -/
theorem mem_reached_or (hhits : ∀ h ∈ hs, h ∈ Scan.hits head text)
    (hsorted : hs.Pairwise fun a b => a.stop ≤ b.start ∧ a.start < b.start) {h : Hit Head}
    (hmem : h ∈ hs) (hcursor : cursor ≤ h.start) (hescaped : Scan.isEscaped text h.start = false) :
    h ∈ reached text cursor hs ∨
      ∃ d ∈ takenOf text (reached text cursor hs), d.command.start < h.start ∧ h.start < d.stop := by
  induction hs generalizing cursor with
  | nil => cases hmem
  | cons first hs ih =>
    obtain ⟨hfirst, hhits⟩ := List.forall_mem_cons.mp hhits
    obtain ⟨hbehind, hsorted⟩ := List.pairwise_cons.mp hsorted
    rw [reached]
    split
    · rename_i hskip
      rcases List.mem_cons.mp hmem with rfl | hmem
      · simp [hescaped] at hskip
        omega
      · exact ih hhits hsorted hmem hcursor
    · rcases List.mem_cons.mp hmem with rfl | hmem
      · exact .inl List.mem_cons_self
      · have hlater : ((accepted? text first).map (·.2)).getD cursor ≤ h.start →
            h ∈ first :: reached text (((accepted? text first).map (·.2)).getD cursor) hs ∨
              ∃ d ∈ takenOf text
                  (first :: reached text (((accepted? text first).map (·.2)).getD cursor) hs),
                d.command.start < h.start ∧ h.start < d.stop := by
          intro hcursor
          rcases ih hhits hsorted hmem hcursor with hreached | ⟨d, hd, hinside⟩
          · exact .inl (List.mem_cons_of_mem first hreached)
          · obtain ⟨hd, haccepted⟩ := mem_takenOf_iff.mp hd
            exact .inr ⟨d, mem_takenOf_iff.mpr ⟨List.mem_cons_of_mem first hd, haccepted⟩, hinside⟩
        cases haccepted : accepted? text first with
        | none => exact haccepted ▸ hlater (by simpa [haccepted] using hcursor)
        | some r =>
          by_cases hinside : h.start < r.2
          · exact .inr ⟨⟨first, r.1, r.2⟩, mem_takenOf_iff.mpr ⟨List.mem_cons_self, haccepted⟩,
              (hbehind h hmem).2, hinside⟩
          · exact haccepted ▸ hlater (by simpa [haccepted] using Nat.le_of_not_lt hinside)

end Reached

/-- The definitions that are taken out in front of a place **end** in front of it. -/
def Outside (taken : List Taken) (h : Hit Head) : Prop :=
  ∀ d ∈ taken, d.command.start < h.start → d.stop ≤ h.start

/-- The commands that the collection reaches in a text. -/
def commands (text : Text) : List (Hit Head) := reached text 0 (Scan.hits head text)

theorem isCommand_of_mem_commands {text : Text} {h : Hit Head} (hmem : h ∈ commands text) :
    IsCommand text h := (isCommand_of_mem_reached (fun _ h => h) hmem).1

theorem pairwise_commands (text : Text) : (commands text).Pairwise fun a b =>
    a.stop ≤ b.start ∧ a.start < b.start ∧
      ∀ m stop, accepted? text a = some (m, stop) → stop ≤ b.start :=
  pairwise_reached (fun _ h => h) (Scan.pairwise_hits head text)

/-- Of two commands that are reached, one comes first. -/
theorem commands_trichotomy {text : Text} {a b : Hit Head} (ha : a ∈ commands text)
    (hb : b ∈ commands text) : a = b ∨
      (a.stop ≤ b.start ∧ a.start < b.start ∧
        ∀ m stop, accepted? text a = some (m, stop) → stop ≤ b.start) ∨
      (b.stop ≤ a.start ∧ b.start < a.start ∧
        ∀ m stop, accepted? text b = some (m, stop) → stop ≤ a.start) := by
  have hpairwise := List.pairwise_iff_getElem.mp (pairwise_commands text)
  obtain ⟨i, hi, rfl⟩ := List.getElem_of_mem ha
  obtain ⟨j, hj, rfl⟩ := List.getElem_of_mem hb
  rcases Nat.lt_trichotomy i j with h | rfl | h
  · exact .inr (.inl (hpairwise i j hi hj h))
  · exact .inl rfl
  · exact .inr (.inr (hpairwise j i hj hi h))

/-- **A command is reached** just when it lies in no definition that is taken out before it. -/
theorem mem_commands_iff {text : Text} {h : Hit Head} :
    h ∈ commands text ↔ IsCommand text h ∧ Outside (takenOf text (commands text)) h := by
  constructor
  · intro hmem
    refine ⟨isCommand_of_mem_commands hmem, ?_⟩
    intro d hd hlt
    obtain ⟨hd, haccepted⟩ := mem_takenOf_iff.mp hd
    rcases commands_trichotomy hd hmem with rfl | ⟨-, -, hstop⟩ | ⟨-, hgt, -⟩
    · omega
    · exact hstop _ _ haccepted
    · omega
  · rintro ⟨hcommand, houtside⟩
    obtain ⟨hmem, hescaped⟩ := isCommand_iff.mp hcommand
    rcases mem_reached_or (fun _ h => h) (Scan.pairwise_hits head text) hmem (Nat.zero_le _)
      hescaped with hreached | ⟨d, hd, hstart, hstop⟩
    · exact hreached
    · have := houtside d hd hstart
      omega

/-! ### One step, and a run -/

/-- What a report says besides its words: its kind, and where it stands. -/
def place (d : Diagnostic) : DiagnosticKind × Int := (d.kind, d.position)

/-- What is reported of a command. -/
def complaint (h : Hit Head) : DiagnosticKind × Int := (.invalidMacroName, h.start)

def Taken.enter (macros : Table Macro) (d : Taken) : Table Macro :=
  if d.command.value = .providecommand ∧ macros.has d.entry.name then macros
  else macros.put d.entry.name d.entry

theorem notes_arityOf (arity : Arity) : (arityOf arity).notes = [] := by
  cases arity with
  | counted n => rfl
  | written t =>
    unfold arityOf
    dsimp only
    split
    · rfl
    · split <;> rfl

/-- Checking a draft reports a fault just when it leaves no macro. -/
theorem place_checked? {command : Head} {draft : Draft} {position : Nat} {m? : Option Macro}
    (h : (checked? command draft position).result = .ok m?) :
    (checked? command draft position).notes.map place =
      if m?.isNone then [(.invalidMacroName, (position : Int))] else [] := by
  unfold checked? at h ⊢
  by_cases hname : isName (bareName draft.name)
  · simp only [hname, Bool.not_true, Bool.false_eq_true, if_false] at h ⊢
    obtain ⟨arity?, harity, h⟩ := of_result_bind h
    rw [bind_of_ok harity, notes_arityOf, List.nil_append]
    cases arity? with
    | none =>
      rw [bind_of_ok (result_report _ _ _)] at h ⊢
      cases h
      rfl
    | some n =>
      cases h
      rfl
  · simp only [hname, Bool.not_false, if_true] at h ⊢
    rw [bind_of_ok (result_report _ _ _)] at h ⊢
    cases h
    rfl

/-- **One step of the collection** takes the definition of a command out, or reports the command. -/
theorem step_collectHit {text : Text} {s s' : Progress} {h : Hit Head}
    (hreached : ¬ (h.start < s.cursor ∨ Scan.isEscaped text h.start))
    (hresult : (collectHit text s h).result = .ok s') :
    s'.cursor = ((accepted? text h).map (·.2)).getD s.cursor ∧
      s'.edits = s.edits ++ (takenOf text [h]).map (fun d => Edit.cut d.range) ∧
      s'.macros = (takenOf text [h]).foldl Taken.enter s.macros ∧
      (collectHit text s h).notes.map place = (rejectedOf text [h]).map complaint := by
  have hpast : s' = s.past text h := by
    rcases result_collectHit_cases hreached with ⟨error, -, hfault⟩ | ⟨-, hok⟩
    · rw [hresult] at hfault
      cases hfault
    · rw [hresult] at hok
      exact Except.ok.inj hok
  have hplaces : (collectHit text s h).notes.map place = (rejectedOf text [h]).map complaint := by
    rw [collectHit, if_neg hreached] at hresult ⊢
    cases hdraft : draft? h.value (text.drop h.stop) with
    | none => simp [rejectedOf, accepted?, hdraft, bind_of_ok (result_report _ _ _), place, complaint]
    | some r =>
      simp only [hdraft] at hresult ⊢
      obtain ⟨m?, hm, hresult⟩ := of_result_bind hresult
      have hm' : m? = r.1.macro? := by
        rcases result_checked?_cases h.value r.1 h.start with ⟨error, -, -, hfault⟩ | ⟨-, hok⟩
        · rw [hm] at hfault
          cases hfault
        · rw [hm] at hok
          exact Except.ok.inj hok
      rw [bind_of_ok hm]
      simp only [List.map_append, place_checked? hm]
      cases hmacro : r.1.macro? <;>
        simp [rejectedOf, accepted?, hdraft, hm', hmacro, complaint]
  refine ⟨hpast ▸ cursor_past s text h, ?_, ?_, hplaces⟩
  · rw [hpast, Progress.past]
    cases haccepted : accepted? text h <;> simp [takenOf, haccepted, Edit.cut, Taken.range]
  · rw [hpast, Progress.past]
    cases haccepted : accepted? text h <;> simp [takenOf, haccepted, Taken.enter, Definition.enter]

/-- **A run of the collection** from a cursor on. -/
theorem run_collectHit {text : Text} (todo : List (Hit Head)) :
    ∀ s s' : Progress, (todo.foldlM (collectHit text) s).result = .ok s' →
      s'.edits = s.edits ++
          (takenOf text (reached text s.cursor todo)).map (fun d => Edit.cut d.range) ∧
        s'.macros = (takenOf text (reached text s.cursor todo)).foldl Taken.enter s.macros ∧
        (todo.foldlM (collectHit text) s).notes.map place =
          (rejectedOf text (reached text s.cursor todo)).map complaint := by
  induction todo with
  | nil =>
    intro s s' hs
    cases hs
    exact ⟨(List.append_nil _).symm, rfl, rfl⟩
  | cons h todo ih =>
    intro s s' hs
    rw [List.foldlM_cons] at hs ⊢
    obtain ⟨next, hnext, hs⟩ := of_result_bind hs
    obtain ⟨hedits, hmacros, hplaces⟩ := ih next s' hs
    rw [bind_of_ok hnext, reached]
    split
    · rename_i hskip
      have hpure : collectHit text s h = pure s := by rw [collectHit, if_pos hskip]
      rw [hpure] at hnext ⊢
      cases hnext
      exact ⟨hedits, hmacros, hplaces⟩
    · rename_i hreached
      obtain ⟨hcursor, hedits', hmacros', hplaces'⟩ := step_collectHit hreached hnext
      rw [← hcursor, takenOf_cons, rejectedOf_cons]
      refine ⟨?_, ?_, ?_⟩
      · rw [hedits, hedits', List.append_assoc, List.map_append]
      · rw [hmacros, hmacros', List.foldl_append]
      · rw [List.map_append, List.map_append, hplaces, hplaces']

/-! ### The table -/

/-- **The macro of a name** is the last one that is defined under it, where a definition that only
    provides does not count behind another one. -/
theorem get?_foldl_enter (taken : List Taken) (macros : Table Macro) (name : Text) :
    (taken.foldl Taken.enter macros).get? name =
      (taken.filter fun d => d.entry.name = name).foldl (fun found d =>
        if d.command.value = .providecommand ∧ found.isSome then found else some d.entry)
        (macros.get? name) := by
  induction taken generalizing macros with
  | nil => rfl
  | cons d taken ih =>
    rw [List.foldl_cons, ih, Taken.enter]
    by_cases hname : d.entry.name = name
    · subst hname
      rw [List.filter_cons_of_pos (by simp), List.foldl_cons, Table.has]
      split
      · rfl
      · rw [Table.get?_put, if_pos rfl]
    · rw [List.filter_cons_of_neg (by simpa using hname)]
      split
      · rfl
      · rw [Table.get?_put, if_neg (Ne.symm hname)]

/-! ### The account -/

/-- The **account** of the defining commands of a text: the definitions that are taken out, and the
    commands that are rejected.  Which of the two becomes of a command that lies in no definition
    taken out before it depends on its own definition alone. -/
structure Account (text : Text) (taken : List Taken) (rejected : List (Hit Head)) : Prop where
  mem_taken_iff : ∀ d, d ∈ taken ↔ IsCommand text d.command ∧ Outside taken d.command ∧
    accepted? text d.command = some (d.entry, d.stop)
  mem_rejected_iff : ∀ h, h ∈ rejected ↔ IsCommand text h ∧ Outside taken h ∧
    accepted? text h = none
  /-- No two definitions overlap. -/
  apart : taken.Pairwise fun a b => a.stop ≤ b.command.start
  within : ∀ d ∈ taken, d.command.stop < d.stop ∧ d.stop ≤ text.length
  /-- No command is rejected twice. -/
  ascending : rejected.Pairwise fun a b => a.start < b.start
  /-- A rejected command is left in its place. -/
  left : ∀ h ∈ rejected, ∀ d ∈ taken, h.stop ≤ d.command.start ∨ d.stop ≤ h.start

theorem account_commands (text : Text) :
    Account text (takenOf text (commands text)) (rejectedOf text (commands text)) := by
  constructor
  · intro d
    rw [mem_takenOf_iff, mem_commands_iff, and_assoc]
  · intro h
    rw [mem_rejectedOf_iff, mem_commands_iff, and_assoc]
  · rw [takenOf, List.pairwise_filterMap]
    refine (pairwise_commands text).imp ?_
    rintro a b ⟨-, -, hstop⟩ d hd e he
    obtain ⟨⟨m, stop⟩, haccepted, rfl⟩ := Option.map_eq_some_iff.mp hd
    obtain ⟨-, -, rfl⟩ := Option.map_eq_some_iff.mp he
    exact hstop m stop haccepted
  · intro d hd
    exact lt_stop_of_accepted? (mem_takenOf_iff.mp hd).2
  · exact ((pairwise_commands text).imp fun hab => hab.2.1).filter _
  · intro h hh d hd
    obtain ⟨hd, haccepted⟩ := mem_takenOf_iff.mp hd
    obtain ⟨hh, hnone⟩ := mem_rejectedOf_iff.mp hh
    rcases commands_trichotomy hd hh with rfl | ⟨-, -, hstop⟩ | ⟨hstop, -⟩
    · rw [haccepted] at hnone
      cases hnone
    · exact .inr (hstop _ _ haccepted)
    · exact .inl hstop

/-- **The collection accounts for every defining command.**  A command that lies in no definition
    taken out before it either begins a definition, and then the whole of it is missing from the
    text, or it is left there and is reported once, at its own place.  Nothing else is missing,
    nothing else is reported, and the table is the fold of the definitions from left to right. -/
theorem accounted_of_collect {text rest : Text} {macros : Table Macro}
    (h : (collect text).result = .ok (rest, macros)) :
    ∃ (taken : List Taken) (rejected : List (Hit Head)),
      Account text taken rejected ∧
      rest = text.outside (taken.map Taken.range) ∧
      ((collect text).notes.map fun d => (d.kind, d.position)) =
        rejected.map (fun h => (DiagnosticKind.invalidMacroName, (h.start : Int))) ∧
      macros = taken.foldl (fun (macros : Table Macro) d =>
        if d.command.value = .providecommand ∧ macros.has d.entry.name then macros
        else macros.put d.entry.name d.entry) [] ∧
      ∀ name, macros.get? name = (taken.filter fun d => d.entry.name = name).foldl (fun found d =>
        if d.command.value = .providecommand ∧ found.isSome then found else some d.entry) none := by
  obtain ⟨s, hs, -⟩ := of_result_bind h
  obtain ⟨hedits, hmacros, hplaces⟩ := run_collectHit (Scan.hits head text) _ s hs
  have hordered := (laid_collect hs).ordered.mono (Nat.le_refl _) (laid_collect hs).within
  have hnotes : (collect text).notes = ((Scan.hits head text).foldlM (collectHit text)
      ⟨0, [], []⟩).notes := by
    rw [collect, bind_of_ok hs, bind_of_ok (result_edited (edits_collect hs))]
    exact List.append_nil _
  rw [result_collect hs] at h
  obtain ⟨hrest, htable⟩ := Prod.mk.inj (Except.ok.inj h)
  have hcut : s.edits = ((takenOf text (commands text)).map Taken.range).map Edit.cut := by
    rw [hedits, List.map_map]
    rfl
  refine ⟨_, _, account_commands text, ?_, ?_, ?_, ?_⟩
  · rw [← hrest, hcut, Edit.splice_cut (hcut ▸ hordered) (Nat.zero_le _) (Nat.le_refl _)]
    simp [Text.outside, Text.slice]
  · rw [hnotes]
    exact hplaces
  · exact htable.symm.trans hmacros
  · intro name
    rw [← htable, hmacros]
    exact get?_foldl_enter _ [] name

/-- A definition of no name, with another definition in its body. -/
def rejectedOutside : Text :=
  "\\newcommand" ++ Text.braced "\\1" ++ Text.braced "\\def\\x{y}" ++ "z"

/-- The same without the definition in the body. -/
def rejectedLeft : Text := "\\newcommand" ++ Text.braced "\\1" ++ "{}z"

/-- A rejected definition is looked into: the one in its body is taken out. -/
theorem accounted_of_collect_inner :
    (collect rejectedOutside).result =
        .ok (rejectedLeft, [("x", ⟨"x", 0, "y", none⟩)]) ∧
      ∃ taken rejected, Account rejectedOutside taken rejected ∧
        rejectedLeft = Text.outside (taken.map Taken.range)
          rejectedOutside := by
  have hresult : (collect rejectedOutside).result =
      .ok (rejectedLeft, [("x", ⟨"x", 0, "y", none⟩)]) := by
    have hs : ((Scan.hits head rejectedOutside).foldlM
        (collectHit rejectedOutside) ⟨0, [], []⟩).result =
          .ok ⟨25, [⟨16, 25, []⟩], [("x", ⟨"x", 0, "y", none⟩)]⟩ := by rfl
    rw [result_collect hs]
    rfl
  obtain ⟨taken, rejected, haccount, hrest, -⟩ := accounted_of_collect hresult
  exact ⟨hresult, taken, rejected, haccount, hrest⟩

end Definition

end TexMark
