/-
  TexMark/Proofs/Definitions.lean
  ===============================
  **Collecting definitions.**  The one pass that can meet a fault: a definition may give its
  number of arguments in digits that are no decimals, or in too many of them.

    * `Definition.reached` — the defining commands that the collection looks at: those that
      are not escaped and do not lie in a definition taken out before;
    * `Definition.Unreadable` — a command whose definition is well formed and has a valid
      name, but a number of arguments beyond reading;
    * `result_collect_cases` — the collection stops exactly at an unreadable definition that
      it reaches, and otherwise takes out definitions whose edits fit;
    * `named_collect` — every macro stands in the table under its own name, a name of letters.
-/
import TexMark.Proofs.Passes
import TexMark.Proofs.Tables

namespace TexMark.Definition

open Noted

/-! ### Definitions that are taken out -/

/-- The number of arguments that is taken from a definition. -/
def Arity.value? : Arity → Option Nat
  | counted n => atMostMax? n
  | written t =>
    if t.isEmpty || !t.all Text.isDigit then none
    else match Integer.read t with
      | .error _ => none
      | .ok n => atMostMax? n.toNat

/-- The macro of a draft whose name and number of arguments are valid. -/
def Draft.macro? (draft : Draft) : Option Macro :=
  if isName (bareName draft.name) then
    draft.arity.value?.map fun arity =>
      ⟨bareName draft.name, arity, draft.body, if arity = 0 then none else draft.default?⟩
  else none

/-- The macro that a command defines, and where its definition ends; nothing if the
    definition stays in the text. -/
def accepted? (text : Text) (h : Hit Head) : Option (Macro × Nat) :=
  (draft? h.value (text.drop h.stop)).bind fun r =>
    r.1.macro?.map fun m => (m, text.length - r.2.length)

/-- The defining commands that the collection **reaches** from a cursor on: those that are
    not escaped and do not lie in a definition that is taken out. -/
def reached (text : Text) (cursor : Nat) : List (Hit Head) → List (Hit Head)
  | [] => []
  | h :: hs =>
    if h.start < cursor ∨ Scan.isEscaped text h.start then reached text cursor hs
    else h :: reached text (((accepted? text h).map (·.2)).getD cursor) hs

/-! ### Definitions beyond reading -/

/-- A number of arguments that is written in digits but is no integer. -/
def Arity.Unreadable (arity : Arity) (error : Integer.ReadError) : Prop :=
  ∃ t, arity = .written t ∧ t ≠ [] ∧ t.all Text.isDigit ∧ Integer.read t = .error error

/-- A well-formed definition by `\newcommand`, `\renewcommand` or `\providecommand` that has a
    valid name, and a number of arguments beyond reading. -/
def Unreadable (text : Text) (h : Hit Head) (error : Integer.ReadError) : Prop :=
  (h.value = .newcommand ∨ h.value = .renewcommand ∨ h.value = .providecommand) ∧
  ∃ draft after, draft? h.value (text.drop h.stop) = some (draft, after) ∧
    isName (bareName draft.name) ∧ draft.arity.Unreadable error

/-- Only the kin of `\newcommand` write a number of arguments. -/
theorem head_of_arity_written {head : Head} {t rest arity : Text} {draft : Draft}
    (h : draft? head t = some (draft, rest)) (harity : draft.arity = .written arity) :
    head = .newcommand ∨ head = .renewcommand ∨ head = .providecommand := by
  cases head with
  | newcommand => exact .inl rfl
  | renewcommand => exact .inr (.inl rfl)
  | providecommand => exact .inr (.inr rfl)
  | operator starred =>
    simp only [draft?, operator?, Option.bind_eq_bind, Option.pure_def, Option.bind_eq_some_iff,
      Option.some.injEq, Prod.mk.injEq] at h
    obtain ⟨_, -, _, -, rfl, -⟩ := h
    cases harity
  | def_ =>
    simp only [draft?, plain?, Option.bind_eq_bind, Option.pure_def, Option.bind_eq_some_iff,
      Option.some.injEq, Prod.mk.injEq] at h
    obtain ⟨_, -, _, -, rfl, -⟩ := h
    cases harity

/-- Reading a number of arguments stops, or answers it. -/
theorem result_arityOf_cases (arity : Arity) :
    (∃ error, arity.Unreadable error ∧ (arityOf arity).result = .error (.integer error)) ∨
      ((∀ error, ¬ arity.Unreadable error) ∧ (arityOf arity).result = .ok arity.value?) := by
  cases arity with
  | counted n =>
    refine .inr ⟨?_, rfl⟩
    rintro error ⟨t, ht, -⟩
    cases ht
  | written t =>
    by_cases hdigits : t.isEmpty || !t.all Text.isDigit
    · refine .inr ⟨?_, by simp [arityOf, Arity.value?, hdigits]⟩
      rintro error ⟨t', ht, hne, hall, -⟩
      cases ht
      simp_all
    · cases hread : Integer.read t with
      | error error =>
        refine .inl ⟨error, ⟨t, rfl, ?_, ?_, hread⟩, by simp [arityOf, hdigits, hread, fail]⟩
        · rintro rfl
          exact hdigits rfl
        · simp_all
      | ok n =>
        refine .inr ⟨?_, by simp [arityOf, Arity.value?, hdigits, hread]⟩
        rintro error ⟨t', ht, -, -, hread'⟩
        cases ht
        rw [hread] at hread'
        cases hread'

/-- Checking a draft stops at its number of arguments, or answers its macro. -/
theorem result_checked?_cases (head : Head) (draft : Draft) (position : Nat) :
    (∃ error, isName (bareName draft.name) ∧ draft.arity.Unreadable error ∧
        (checked? head draft position).result = .error (.integer error)) ∨
      ((∀ error, isName (bareName draft.name) → ¬ draft.arity.Unreadable error) ∧
        (checked? head draft position).result = .ok draft.macro?) := by
  unfold checked?
  by_cases hname : isName (bareName draft.name)
  · simp only [hname, Bool.not_true, Bool.false_eq_true, if_false]
    rcases result_arityOf_cases draft.arity with ⟨error, herror, hresult⟩ | ⟨hreadable, hresult⟩
    · exact .inl ⟨error, trivial, herror, by rw [bind_of_error hresult]⟩
    · refine .inr ⟨fun error _ => hreadable error, ?_⟩
      rw [bind_of_ok hresult]
      cases harity : draft.arity.value? <;>
        simp [Draft.macro?, hname, harity, bind_of_ok (result_report _ _ _)]
  · refine .inr ⟨fun error h => absurd h hname, ?_⟩
    simp [hname, Draft.macro?, bind_of_ok (result_report _ _ _)]

/-! ### The collection -/

/-- The collection behind a command that it can read. -/
def Progress.past (s : Progress) (text : Text) (h : Hit Head) : Progress :=
  match accepted? text h with
  | none => s
  | some (m, stop) => ⟨stop, s.edits ++ [⟨h.start, stop, []⟩], enter h.value m s.macros⟩

theorem cursor_past (s : Progress) (text : Text) (h : Hit Head) :
    (s.past text h).cursor = ((accepted? text h).map (·.2)).getD s.cursor := by
  unfold Progress.past
  cases accepted? text h <;> rfl

/-- **One step of the collection**, for a command that it reaches. -/
theorem result_collectHit_cases {text : Text} {s : Progress} {h : Hit Head}
    (hreached : ¬ (h.start < s.cursor ∨ Scan.isEscaped text h.start)) :
    (∃ error, Unreadable text h error ∧
        (collectHit text s h).result = .error (.integer error)) ∨
      ((∀ error, ¬ Unreadable text h error) ∧
        (collectHit text s h).result = .ok (s.past text h)) := by
  unfold collectHit
  rw [if_neg hreached]
  cases hdraft : draft? h.value (text.drop h.stop) with
  | none =>
    refine .inr ⟨?_, by simp [Progress.past, accepted?, hdraft, bind_of_ok (result_report _ _ _)]⟩
    rintro error ⟨-, draft, after, hdraft', -⟩
    rw [hdraft] at hdraft'
    cases hdraft'
  | some r =>
    obtain ⟨draft, after⟩ := r
    dsimp only
    rcases result_checked?_cases h.value draft h.start with
      ⟨error, hname, harity, hresult⟩ | ⟨hreadable, hresult⟩
    · obtain ⟨t, ht, -⟩ := id harity
      refine .inl ⟨error, ⟨head_of_arity_written hdraft ht, draft, after, hdraft, hname, harity⟩, ?_⟩
      rw [bind_of_error hresult]
    · right
      constructor
      · rintro error ⟨-, draft', after', hdraft', hname, harity⟩
        rw [hdraft] at hdraft'
        cases hdraft'
        exact hreadable error hname harity
      · rw [bind_of_ok hresult]
        cases hmacro : draft.macro? <;> simp [Progress.past, accepted?, hdraft, hmacro]

theorem laid_past {text : Text} {s : Progress} {h : Hit Head}
    (hmem : h ∈ Scan.hits head text) (hcursor : s.cursor ≤ h.start)
    (hs : Laid text.length s.cursor s.edits) :
    Laid text.length (s.past text h).cursor (s.past text h).edits := by
  unfold Progress.past
  cases haccepted : accepted? text h with
  | none => exact hs
  | some r =>
    obtain ⟨-, hlt, hstop⟩ := Scan.hit_spec advances_head hmem
    obtain ⟨⟨draft, after⟩, hdraft, hmacro⟩ := Option.bind_eq_some_iff.mp haccepted
    obtain ⟨m', -, rfl⟩ := Option.map_eq_some_iff.mp hmacro
    obtain ⟨hstart, hsize⟩ := Hit.bounds_of_suffix hlt hstop (draft?_behind hdraft).1
    exact hs.add hcursor hstart hsize []

/-- The collection from a cursor on stops at an unreadable definition, or comes to its end
    with edits that fit. -/
theorem result_foldlM_collectHit_cases {text : Text} (todo : List (Hit Head))
    (htodo : ∀ h ∈ todo, h ∈ Scan.hits head text) :
    ∀ s : Progress, Laid text.length s.cursor s.edits →
      (∃ error, (∃ h ∈ reached text s.cursor todo, Unreadable text h error) ∧
          (todo.foldlM (collectHit text) s).result = .error (.integer error)) ∨
        ((∀ h ∈ reached text s.cursor todo, ∀ error, ¬ Unreadable text h error) ∧
          ∃ s', (todo.foldlM (collectHit text) s).result = .ok s' ∧
            Laid text.length s'.cursor s'.edits) := by
  induction todo with
  | nil => exact fun s hs => .inr ⟨nofun, s, rfl, hs⟩
  | cons h todo ih =>
    intro s hs
    have htodo' : ∀ h' ∈ todo, h' ∈ Scan.hits head text :=
      fun h' hmem => htodo h' (List.mem_cons_of_mem h hmem)
    rw [List.foldlM_cons]
    by_cases hskip : h.start < s.cursor ∨ Scan.isEscaped text h.start
    · have hpure : collectHit text s h = pure s := by rw [collectHit, if_pos hskip]
      rw [hpure, pure_bind, reached, if_pos hskip]
      exact ih htodo' s hs
    · rw [reached, if_neg hskip]
      rcases result_collectHit_cases hskip with ⟨error, herror, hresult⟩ | ⟨hreadable, hresult⟩
      · refine .inl ⟨error, ⟨h, List.mem_cons_self, herror⟩, ?_⟩
        rw [bind_of_error hresult]
      · rw [bind_of_ok hresult]
        have hlaid := laid_past (htodo h List.mem_cons_self) (by omega) hs
        rw [← cursor_past]
        rcases ih htodo' _ hlaid with ⟨error, ⟨h', hmem, herror⟩, hfault⟩ | ⟨hall, hfinal⟩
        · exact .inl ⟨error, ⟨h', List.mem_cons_of_mem h hmem, herror⟩, hfault⟩
        · refine .inr ⟨?_, hfinal⟩
          intro h' hmem error
          rcases List.mem_cons.mp hmem with rfl | hmem
          · exact hreadable error
          · exact hall h' hmem error

theorem laid_collect {text : Text} {s : Progress}
    (hs : ((Scan.hits head text).foldlM (collectHit text) ⟨0, [], []⟩).result = .ok s) :
    Laid text.length s.cursor s.edits := by
  rcases result_foldlM_collectHit_cases (Scan.hits head text) (fun _ h => h) ⟨0, [], []⟩ Laid.start
    with ⟨error, -, hfault⟩ | ⟨-, s', hs', hlaid⟩
  · rw [hs] at hfault
    cases hfault
  · rw [hs] at hs'
    cases hs'
    exact hlaid

/-- **The edits of the definitions fit,** whenever the collection comes to its end. -/
theorem edits_collect {text : Text} {s : Progress}
    (hs : ((Scan.hits head text).foldlM (collectHit text) ⟨0, [], []⟩).result = .ok s) :
    Edit.Fit 0 text.length s.edits := (laid_collect hs).fit

theorem result_collect {text : Text} {s : Progress}
    (hs : ((Scan.hits head text).foldlM (collectHit text) ⟨0, [], []⟩).result = .ok s) :
    (collect text).result = .ok (Edit.splice text 0 text.length s.edits, s.macros) := by
  rw [collect, bind_of_ok hs, bind_of_ok (result_edited (edits_collect hs)),
    (laid_collect hs).ordered.inOrder_eq]
  rfl

/-- **The collection stops exactly at an unreadable definition that it reaches.** -/
theorem result_collect_cases (text : Text) :
    (∃ error, (∃ h ∈ reached text 0 (Scan.hits head text), Unreadable text h error) ∧
        (collect text).result = .error (.integer error)) ∨
      ((∀ h ∈ reached text 0 (Scan.hits head text), ∀ error, ¬ Unreadable text h error) ∧
        ∃ r, (collect text).result = .ok r) := by
  rcases result_foldlM_collectHit_cases (Scan.hits head text) (fun _ h => h) ⟨0, [], []⟩ Laid.start
    with ⟨error, hreached, hfault⟩ | ⟨hall, s, hs, hlaid⟩
  · exact .inl ⟨error, hreached, by rw [collect, bind_of_error hfault]⟩
  · refine .inr ⟨hall, ?_⟩
    rw [collect, bind_of_ok hs]
    exact exists_result_bind ⟨_, result_edited hlaid.fit⟩ fun body => ⟨(body, s.macros), rfl⟩

-- a superscript is a digit, but no decimal
example : (collect "\\newcommand\\x[²]{y}").result = .error (.integer (.malformed "²")) := by
  rfl

/-! ### The table of the macros -/

theorem isName_iff {name : Text} :
    isName name ↔ name ≠ [] ∧ ∀ c ∈ name, Text.isAsciiLetter c := by
  simp [isName]

theorem not_mem_of_isName {name : Text} (h : isName name) : '\\' ∉ name := by
  intro hmem
  exact Text.ne_backslash_of_isAsciiLetter ((isName_iff.mp h).2 _ hmem) rfl

/-- A table of macros, each **under its own name**. -/
structure Named (macros : Table Macro) : Prop where
  own : ∀ e ∈ macros, e.2.name = e.1
  isName : ∀ e ∈ macros, isName e.1
  nodup : macros.names.Nodup

theorem Named.put {macros : Table Macro} (h : Named macros) {m : Macro}
    (hm : Definition.isName m.name) : Named (macros.put m.name m) := by
  constructor
  · intro e he
    rcases Table.eq_or_mem_of_mem_put he with rfl | he
    · rfl
    · exact h.own e he
  · intro e he
    rcases Table.eq_or_mem_of_mem_put he with rfl | he
    · exact hm
    · exact h.isName e he
  · exact Table.nodup_names_put h.nodup

theorem Named.enter {macros : Table Macro} (h : Named macros) (head : Head) {m : Macro}
    (hm : Definition.isName m.name) : Named (enter head m macros) := by
  unfold Definition.enter
  split
  · exact h
  · exact h.put hm

/-- The macros of a document stand beside those that were known before. -/
theorem Named.merge {older macros : Table Macro} (h : Named older) (hmacros : Named macros) :
    Named (older.merge macros) := by
  induction macros generalizing older with
  | nil => exact h
  | cons e macros ih =>
    obtain ⟨howner, hown⟩ := List.forall_mem_cons.mp hmacros.own
    obtain ⟨hname, hisName⟩ := List.forall_mem_cons.mp hmacros.isName
    have hput : Named (older.put e.1 e.2) := by
      have := h.put (howner ▸ hname)
      rwa [howner] at this
    exact ih hput ⟨hown, hisName, (List.nodup_cons.mp hmacros.nodup).2⟩

theorem isName_of_accepted? {text : Text} {h : Hit Head} {m : Macro} {stop : Nat}
    (haccepted : accepted? text h = some (m, stop)) : isName m.name := by
  obtain ⟨⟨draft, after⟩, -, hmacro⟩ := Option.bind_eq_some_iff.mp haccepted
  obtain ⟨m', hm', heq⟩ := Option.map_eq_some_iff.mp hmacro
  cases heq
  unfold Draft.macro? at hm'
  split at hm'
  · rename_i hname
    obtain ⟨arity, -, rfl⟩ := Option.map_eq_some_iff.mp hm'
    exact hname
  · cases hm'

theorem named_past {s : Progress} (hs : Named s.macros) (text : Text) (h : Hit Head) :
    Named (s.past text h).macros := by
  unfold Progress.past
  cases haccepted : accepted? text h with
  | none => exact hs
  | some r => exact hs.enter h.value (isName_of_accepted? haccepted)

theorem named_foldlM_collectHit {text : Text} (todo : List (Hit Head)) :
    ∀ s s' : Progress, Named s.macros → (todo.foldlM (collectHit text) s).result = .ok s' →
      Named s'.macros := by
  induction todo with
  | nil =>
    intro s s' hs hs'
    cases hs'
    exact hs
  | cons h todo ih =>
    intro s s' hs hs'
    rw [List.foldlM_cons] at hs'
    obtain ⟨next, hnext, hrest⟩ := of_result_bind hs'
    refine ih next s' ?_ hrest
    by_cases hskip : h.start < s.cursor ∨ Scan.isEscaped text h.start
    · rw [collectHit, if_pos hskip] at hnext
      cases hnext
      exact hs
    · rcases result_collectHit_cases hskip with ⟨error, -, hfault⟩ | ⟨-, hresult⟩
      · rw [hnext] at hfault
        cases hfault
      · rw [hnext] at hresult
        cases hresult
        exact named_past hs text h

/-- **The macros of a document** stand in their table under their own names. -/
theorem named_collect {text rest : Text} {macros : Table Macro}
    (h : (collect text).result = .ok (rest, macros)) : Named macros := by
  obtain ⟨s, hs, hbody⟩ := of_result_bind h
  obtain ⟨body, -, hpair⟩ := of_result_bind hbody
  cases hpair
  exact named_foldlM_collectHit _ ⟨0, [], []⟩ s ⟨nofun, nofun, List.nodup_nil⟩ hs

/-! ### Reports -/

theorem noFailure_arityOf (arity : Arity) : NoFailure (arityOf arity) := by
  unfold arityOf
  split
  · exact only_pure _
  · split
    · exact only_pure _
    · split
      · exact only_fail _
      · exact only_pure _

theorem noFailure_collect (text : Text) : NoFailure (collect text) := by
  refine only_bind (only_foldlM (fun s h => ?_) _ _) fun s =>
    only_bind (only_edited _ _) fun _ => only_pure _
  unfold collectHit
  split
  · exact only_pure s
  · split
    · exact only_bind (only_report (by decide) _ _) fun _ => only_pure _
    · refine only_bind ?_ fun m? => ?_
      · unfold checked?
        dsimp only
        split
        · exact only_bind (only_report (by decide) _ _) fun _ => only_pure _
        · apply only_bind (noFailure_arityOf _)
          intro arity?
          split
          · exact only_bind (only_report (by decide) _ _) fun _ => only_pure _
          · exact only_pure _
      · split <;> exact only_pure _

end TexMark.Definition
