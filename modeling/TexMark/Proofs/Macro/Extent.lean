/-
  TexMark/Proofs/Macro/Extent.lean
  ================================
  **A definition ends where it ends.**  Its body closes it, so that nothing of what stands behind
  it can become a part of it: the readers of a definition answer the same in front of any text
  (`draft?_append`, `head_append`).

  A text that is one definition (`Spans`) is taken out of a longer text as a whole, wherever it
  stands and whatever follows it (`foldlM_of_spans`).
-/
import TexMark.Proofs.Groups
import TexMark.Proofs.Macro.Collection

namespace TexMark

/-! ### Commands in front of a text -/

namespace Markup

variable {t rest : Text}

theorem command?_append {name : Text} (h : command? name t = some rest) (more : Text) :
    command? name (t ++ more) = some (rest ++ more) := by
  rw [Text.dropPrefix?_eq_some_iff.mp h, List.append_assoc]
  exact Text.dropPrefix?_eq_some_iff.mpr rfl

theorem nameEnds_append (h : t ≠ []) (more : Text) : nameEnds (t ++ more) = nameEnds t := by
  obtain ⟨c, t, rfl⟩ := List.exists_cons_of_ne_nil h
  rfl

theorem word?_append {name : Text} (h : word? name t = some rest) (hrest : rest ≠ [])
    (more : Text) : word? name (t ++ more) = some (rest ++ more) := by
  obtain ⟨hcommand, hends⟩ := Option.filter_eq_some_iff.mp h
  refine Option.filter_eq_some_iff.mpr ⟨command?_append hcommand more, ?_⟩
  rw [nameEnds_append hrest, hends]

/-- No text begins with two commands, unless the name of one goes on in the other. -/
theorem command?_eq_none_of_other {name other : Text} (h : command? other t = some rest)
    (hname : ¬ name <+: other) (hother : ¬ other <+: name) : command? name t = none := by
  rw [Option.eq_none_iff_forall_ne_some]
  intro rest' h'
  have ht := Text.dropPrefix?_eq_some_iff.mp h
  rw [Text.dropPrefix?_eq_some_iff.mp h', List.cons_append, List.cons_append] at ht
  have hsame : name ++ rest' = other ++ rest := (List.cons.inj ht).2
  rcases List.prefix_or_prefix_of_prefix (List.prefix_append name rest')
    (hsame ▸ List.prefix_append other rest) with hprefix | hprefix
  · exact hname hprefix
  · exact hother hprefix

theorem star_append (h : t ≠ []) (more : Text) :
    star (t ++ more) = ((star t).1, (star t).2 ++ more) := by
  obtain ⟨c, t, rfl⟩ := List.exists_cons_of_ne_nil h
  by_cases hc : c = '*'
  · subst hc
    rfl
  · simp [star, hc]

theorem run_append {inside : Char → Bool} (h : (run inside t).2 ≠ []) (more : Text) :
    run inside (t ++ more) = ((run inside t).1, (run inside t).2 ++ more) := by
  induction t with
  | nil => exact absurd rfl h
  | cons c t ih =>
    by_cases hc : inside c
    · have hstep : ∀ t, run inside (c :: t) = (c :: (run inside t).1, (run inside t).2) := by
        simp [run, hc]
      rw [hstep] at h ⊢
      rw [List.cons_append, hstep, ih h]
    · simp [run, hc]

theorem controlSequence?_append {name : Text} (h : controlSequence? t = some (name, rest))
    (hrest : rest ≠ []) (more : Text) :
    controlSequence? (t ++ more) = some (name, rest ++ more) := by
  unfold controlSequence? at h
  split at h
  · rename_i c t
    rw [List.cons_append, List.cons_append, controlSequence?]
    split at h
    · rename_i hletter
      cases h
      have hrun : (run Text.isAsciiLetter (c :: t)).2 ≠ [] := hrest
      rw [if_pos hletter, ← List.cons_append, run_append hrun]
      rfl
    · rename_i hletter
      rw [if_neg hletter]
      split at h
      · cases h
      · rename_i hblank
        cases h
        rw [if_neg hblank]
  · cases h

end Markup

/-! ### Definitions in front of a text -/

namespace Definition

open TexMark.Group (skipSpaces braces? brackets? skipSpaces_append)

variable {t rest inner : Text} {draft : Draft}

theorem braces?_append (h : braces? t = some (inner, rest)) (more : Text) :
    braces? (t ++ more) = some (inner, rest ++ more) :=
  Group.read?_append (by decide) (by decide) (by decide) h more

theorem brackets?_append (h : brackets? t = some (inner, rest)) (more : Text) :
    brackets? (t ++ more) = some (inner, rest ++ more) :=
  Group.read?_append (by decide) (by decide) (by decide) h more

theorem name?_append {name : Text} (h : name? t = some (name, rest)) (hrest : rest ≠ [])
    (more : Text) : name? (t ++ more) = some (name, rest ++ more) := by
  unfold name? at h ⊢
  by_cases hbrace : t.head? = some '{'
  · have hbrace' : (t ++ more).head? = some '{' := by simp [List.head?_append, hbrace]
    rw [if_pos hbrace] at h
    rw [if_pos hbrace']
    obtain ⟨⟨inner, after⟩, hgroup, heq⟩ := Option.map_eq_some_iff.mp h
    cases heq
    rw [braces?_append hgroup]
    rfl
  · have ht : t ≠ [] := (Markup.controlSequence?_behind (if_neg hbrace ▸ h)).ne_nil
    have hbrace' : (t ++ more).head? ≠ some '{' := by
      rwa [List.head?_append_of_ne_nil _ ht]
    rw [if_neg hbrace] at h
    rw [if_neg hbrace', Markup.controlSequence?_append h hrest]

theorem optional?_append {group : Option Text} (h : optional? t = some (group, rest))
    (hrest : rest ≠ []) (more : Text) : optional? (t ++ more) = some (group, rest ++ more) := by
  have ht : t ≠ [] := (optional?_suffix h).ne_nil hrest
  unfold optional? at h ⊢
  rw [List.head?_append_of_ne_nil _ ht]
  split at h
  · rename_i hbracket
    rw [if_pos hbracket]
    obtain ⟨⟨inner, after⟩, hgroup, heq⟩ := Option.map_eq_some_iff.mp h
    cases heq
    rw [brackets?_append hgroup, Option.map_some, ← skipSpaces_append hrest]
  · rename_i hbracket
    cases h
    rw [if_neg hbracket]

theorem parameters_append (h : (parameters t).2 ≠ []) (hhash : (parameters t).2 ≠ ['#'])
    (more : Text) : parameters (t ++ more) = ((parameters t).1, (parameters t).2 ++ more) := by
  fun_induction parameters t with
  | case1 c rest hdigit n after heq ih =>
    rw [heq] at ih
    simp [parameters, hdigit, ih h hhash]
  | case2 c rest hdigit => simp [parameters, hdigit]
  | case3 t hpair =>
    have hother : ∀ c rest, t ++ more ≠ '#' :: c :: rest := by
      intro c rest heq
      match t, h, hhash, hpair, heq with
      | [d], _, hhash, _, heq => exact hhash (congrArg (fun t : Text => t.take 1) heq)
      | d :: e :: t, _, _, hpair, heq =>
        obtain ⟨rfl, -⟩ := List.cons.inj heq
        exact hpair e t rfl
    rw [parameters]
    exact hother

theorem newcommand?_eq_some_iff : newcommand? t = some (draft, rest) ↔
    ∃ name afterName arity afterArity default? afterDefault body,
      name? (skipSpaces t) = some (name, afterName) ∧
      optional? (skipSpaces afterName) = some (arity, afterArity) ∧
      (if arity.isSome then optional? afterArity else some (none, afterArity)) =
        some (default?, afterDefault) ∧
      braces? afterDefault = some (body, rest) ∧
      ⟨name, (arity.map fun t => Arity.written (Text.strip t)).getD (.counted 0), default?, body⟩ =
        draft := by
  simp only [newcommand?, Option.bind_eq_bind, Option.pure_def, Option.bind_eq_some_iff]
  constructor
  · rintro ⟨⟨name, afterName⟩, hname, ⟨arity, afterArity⟩, harity, h⟩
    split at h
    · rename_i hsome
      simp only [Option.bind_eq_some_iff] at h
      obtain ⟨⟨default?, afterDefault⟩, hdefault, ⟨body, after⟩, hbody, heq⟩ := h
      cases heq
      exact ⟨name, afterName, arity, afterArity, default?, afterDefault, body, hname, harity,
        (if_pos hsome).trans hdefault, hbody, rfl⟩
    · rename_i hnone
      simp only [Option.bind_some, Option.bind_eq_some_iff] at h
      obtain ⟨⟨body, after⟩, hbody, heq⟩ := h
      cases heq
      exact ⟨name, afterName, arity, afterArity, none, afterArity, body, hname, harity,
        if_neg hnone, hbody, rfl⟩
  · rintro ⟨name, afterName, arity, afterArity, default?, afterDefault, body, hname, harity,
      hdefault, hbody, rfl⟩
    refine ⟨_, hname, _, harity, ?_⟩
    split at hdefault
    · rename_i hsome
      simp [hsome, hdefault, hbody]
    · rename_i hnone
      cases hdefault
      simp [hnone, hbody]

theorem newcommand?_append (h : newcommand? t = some (draft, rest)) (more : Text) :
    newcommand? (t ++ more) = some (draft, rest ++ more) := by
  obtain ⟨name, afterName, arity, afterArity, default?, afterDefault, body, hname, harity, hdefault,
    hbody, hdraft⟩ := newcommand?_eq_some_iff.mp h
  have hafterDefault : afterDefault ≠ [] := (Group.read?_behind hbody).ne_nil
  have hdefault' : (if arity.isSome then optional? (afterArity ++ more)
      else some (none, afterArity ++ more)) = some (default?, afterDefault ++ more) ∧
      afterArity ≠ [] := by
    split at hdefault
    · rename_i hsome
      exact ⟨(if_pos hsome).trans (optional?_append hdefault hafterDefault more),
        (optional?_suffix hdefault).ne_nil hafterDefault⟩
    · rename_i hnone
      cases hdefault
      exact ⟨if_neg hnone, hafterDefault⟩
  obtain ⟨hdefault', hafterArity⟩ := hdefault'
  have hafterName : skipSpaces afterName ≠ [] := (optional?_suffix harity).ne_nil hafterArity
  have hspaces : skipSpaces t ≠ [] := (name?_behind hname).ne_nil
  refine newcommand?_eq_some_iff.mpr ⟨name, afterName ++ more, arity, afterArity ++ more, default?,
    afterDefault ++ more, body, ?_, ?_, hdefault', braces?_append hbody more, hdraft⟩
  · rw [skipSpaces_append hspaces,
      name?_append hname ((Group.skipSpaces_suffix _).ne_nil hafterName)]
  · rw [skipSpaces_append hafterName, optional?_append harity hafterArity]

theorem plain?_append (h : plain? t = some (draft, rest)) (more : Text) :
    plain? (t ++ more) = some (draft, rest ++ more) := by
  simp only [plain?, Option.bind_eq_bind, Option.pure_def, Option.bind_eq_some_iff,
    Option.some.injEq, Prod.mk.injEq] at h ⊢
  obtain ⟨⟨name, afterName⟩, hname, ⟨body, after⟩, hbody, rfl, rfl⟩ := h
  have hparameters : skipSpaces (parameters afterName).2 ≠ [] := (Group.read?_behind hbody).ne_nil
  have hparameters' : (parameters afterName).2 ≠ [] :=
    (Group.skipSpaces_suffix _).ne_nil hparameters
  have hhash : (parameters afterName).2 ≠ ['#'] := by
    intro hhash
    rw [hhash] at hbody
    cases hbody
  have hafterName : afterName ≠ [] := (parameters_suffix _).ne_nil hparameters'
  have hspaces : skipSpaces t ≠ [] := (Markup.controlSequence?_behind hname).ne_nil
  refine ⟨(name, afterName ++ more), ?_, (body, after ++ more), ?_, ?_, rfl⟩
  · rw [skipSpaces_append hspaces, Markup.controlSequence?_append hname hafterName]
  · rw [parameters_append hparameters' hhash, skipSpaces_append hparameters, braces?_append hbody]
  · rw [parameters_append hparameters' hhash]

theorem operator?_append {starred : Bool} (h : operator? starred t = some (draft, rest))
    (more : Text) : operator? starred (t ++ more) = some (draft, rest ++ more) := by
  simp only [operator?, Option.bind_eq_bind, Option.pure_def, Option.bind_eq_some_iff,
    Option.some.injEq, Prod.mk.injEq] at h ⊢
  obtain ⟨⟨name, afterName⟩, hname, ⟨label, after⟩, hlabel, rfl, rfl⟩ := h
  have hafterName : skipSpaces afterName ≠ [] := (Group.read?_behind hlabel).ne_nil
  have hspaces : skipSpaces t ≠ [] := (name?_behind hname).ne_nil
  refine ⟨(name, afterName ++ more), ?_, (label, after ++ more), ?_, rfl, rfl⟩
  · rw [skipSpaces_append hspaces,
      name?_append hname ((Group.skipSpaces_suffix _).ne_nil hafterName)]
  · rw [skipSpaces_append hafterName, braces?_append hlabel]

/-- **A definition is read the same in front of any text.** -/
theorem draft?_append {head : Head} (h : draft? head t = some (draft, rest)) (more : Text) :
    draft? head (t ++ more) = some (draft, rest ++ more) := by
  cases head with
  | newcommand => exact newcommand?_append h more
  | renewcommand => exact newcommand?_append h more
  | providecommand => exact newcommand?_append h more
  | operator starred => exact operator?_append h more
  | def_ => exact plain?_append h more

theorem brace_suffix_of_braces? (h : braces? t = some (inner, rest)) : '}' :: rest <:+ t := by
  rw [Group.eq_of_read?_eq_some h]
  exact List.suffix_append _ _

/-- The body closes a definition. -/
theorem brace_suffix_of_draft? {head : Head} (h : draft? head t = some (draft, rest)) :
    '}' :: rest <:+ t := by
  have hnewcommand : newcommand? t = some (draft, rest) → '}' :: rest <:+ t := by
    intro h
    obtain ⟨name, afterName, arity, afterArity, default?, afterDefault, body, hname, harity,
      hdefault, hbody, -⟩ := newcommand?_eq_some_iff.mp h
    have hafterDefault : afterDefault <:+ afterArity := by
      split at hdefault
      · exact optional?_suffix hdefault
      · cases hdefault
        exact List.suffix_refl _
    exact (brace_suffix_of_braces? hbody).trans <| hafterDefault.trans <|
      (optional?_suffix harity).trans <| (Group.skipSpaces_suffix _).trans <|
      (name?_behind hname).1.trans (Group.skipSpaces_suffix t)
  cases head with
  | newcommand => exact hnewcommand h
  | renewcommand => exact hnewcommand h
  | providecommand => exact hnewcommand h
  | operator starred =>
    simp only [draft?, operator?, Option.bind_eq_bind, Option.pure_def, Option.bind_eq_some_iff,
      Option.some.injEq, Prod.mk.injEq] at h
    obtain ⟨⟨name, afterName⟩, hname, ⟨label, after⟩, hlabel, -, rfl⟩ := h
    exact (brace_suffix_of_braces? hlabel).trans <| (Group.skipSpaces_suffix _).trans <|
      (name?_behind hname).1.trans (Group.skipSpaces_suffix t)
  | def_ =>
    simp only [draft?, plain?, Option.bind_eq_bind, Option.pure_def, Option.bind_eq_some_iff,
      Option.some.injEq, Prod.mk.injEq] at h
    obtain ⟨⟨name, afterName⟩, hname, ⟨body, after⟩, hbody, -, rfl⟩ := h
    exact (brace_suffix_of_braces? hbody).trans <| (Group.skipSpaces_suffix _).trans <|
      (parameters_suffix _).trans <| (Markup.controlSequence?_behind hname).1.trans
        (Group.skipSpaces_suffix t)

theorem starred_append (head : Bool → Head) {name after : Text} {value : Head}
    (h : (Markup.command? name t).map (fun rest => (head (Markup.star rest).1,
      (Markup.star rest).2)) = some (value, after)) (hafter : after ≠ []) (more : Text) :
    (Markup.command? name (t ++ more)).map (fun rest => (head (Markup.star rest).1,
      (Markup.star rest).2)) = some (value, after ++ more) := by
  obtain ⟨rest, hrest, heq⟩ := Option.map_eq_some_iff.mp h
  cases heq
  rw [Markup.command?_append hrest, Option.map_some,
    Markup.star_append ((Markup.star_suffix rest).ne_nil hafter)]

/-- **A defining command is read the same in front of any text**, if something follows it. -/
theorem head_append {before t after : Text} {value : Head} (h : head before t = some (value, after))
    (hafter : after ≠ []) (before' more : Text) :
    head before' (t ++ more) = some (value, after ++ more) := by
  -- the names of the commands that are tried first do not fit
  have hother : ∀ {name other u : Text}, Markup.command? other t = some u →
      ¬ name <+: other → ¬ other <+: name → Markup.command? name (t ++ more) = none := by
    intro name other u hcommand hname hother
    exact Markup.command?_eq_none_of_other (Markup.command?_append hcommand more) hname hother
  simp only [head, Option.orElse_eq_orElse, Option.orElse_eq_or, Option.or_eq_some_iff,
    Option.map_eq_none_iff] at h ⊢
  rcases h with h | ⟨-, h | ⟨-, h | ⟨-, h | ⟨-, h⟩⟩⟩⟩
  · exact .inl (starred_append (fun _ => .newcommand) h hafter more)
  · obtain ⟨u, hu, -⟩ := Option.map_eq_some_iff.mp h
    exact .inr ⟨hother hu (by decide) (by decide),
      .inl (starred_append (fun _ => .renewcommand) h hafter more)⟩
  · obtain ⟨u, hu, -⟩ := Option.map_eq_some_iff.mp h
    exact .inr ⟨hother hu (by decide) (by decide), .inr ⟨hother hu (by decide) (by decide),
      .inl (starred_append (fun _ => .providecommand) h hafter more)⟩⟩
  · obtain ⟨u, hu, -⟩ := Option.map_eq_some_iff.mp h
    exact .inr ⟨hother hu (by decide) (by decide), .inr ⟨hother hu (by decide) (by decide),
      .inr ⟨hother hu (by decide) (by decide), .inl (starred_append .operator h hafter more)⟩⟩⟩
  · obtain ⟨u, hword, heq⟩ := Option.map_eq_some_iff.mp h
    cases heq
    have hu := (Option.filter_eq_some_iff.mp hword).1
    refine .inr ⟨hother hu (by decide) (by decide), .inr ⟨hother hu (by decide) (by decide),
      .inr ⟨hother hu (by decide) (by decide), .inr ⟨hother hu (by decide) (by decide), ?_⟩⟩⟩⟩
    rw [Markup.word?_append hword hafter]
    rfl

/-! ### One definition -/

open Scan (escapedBehind hitsFrom)

variable {d front more : Text} {m : Macro}

/-- The text is **one definition**: the only one that is taken out of it, from the beginning of the
    text to its end. -/
def Spans (d : Text) (m : Macro) : Prop :=
  ∃ h : Hit Head, h.start = 0 ∧ takenOf d (commands d) = [⟨h, m, d.length⟩]

/-- How one definition is written. -/
theorem Spans.exists_draft (h : Spans d m) : ∃ value u draft,
    head [] d = some (value, u) ∧ draft? value u = some (draft, []) ∧ draft.macro? = some m := by
  obtain ⟨hit, hstart, htaken⟩ := h
  obtain ⟨hmem, haccepted⟩ := mem_takenOf_iff.mp (htaken ▸ List.mem_cons_self)
  have hcommand := isCommand_of_mem_commands hmem
  obtain ⟨⟨draft, after⟩, hdraft, hmacro⟩ := Option.bind_eq_some_iff.mp haccepted
  obtain ⟨m', hm', heq⟩ := Option.map_eq_some_iff.mp hmacro
  obtain ⟨rfl, hstop⟩ := Prod.mk.inj heq
  have hafter : after = [] := by
    have hlt := hcommand.lt
    have hle := hcommand.le
    have hlength := (draft?_behind hdraft).2
    rw [List.length_drop] at hlength
    dsimp only at hstop hlength
    exact List.eq_nil_of_length_eq_zero (by omega)
  have hread := hcommand.read
  rw [hstart] at hread
  exact ⟨hit.value, _, draft, hread, hafter ▸ hdraft, hm'⟩

theorem Spans.brace_suffix (h : Spans d m) : ['}'] <:+ d := by
  obtain ⟨value, u, draft, hread, hdraft, -⟩ := h.exists_draft
  exact (brace_suffix_of_draft? hdraft).trans (advances_head _ _ _ _ hread).1

/-- No backslash is open behind a definition. -/
theorem Spans.closed (h : Spans d m) (escaped : Bool) : escapedBehind escaped d = false := by
  obtain ⟨u, rfl⟩ := h.brace_suffix
  exact Scan.escapedBehind_concat escaped u (by decide)

theorem arityOf_of_value? {arity : Arity} {n : Nat} (h : arity.value? = some n) :
    arityOf arity = pure (some n) := by
  cases arity with
  | counted k => exact congrArg pure h
  | written t =>
    unfold Arity.value? at h
    unfold arityOf
    dsimp only at h ⊢
    split at h
    · cases h
    · rename_i hdigits
      rw [if_neg hdigits]
      cases hread : Integer.read t with
      | error cause =>
        rw [hread] at h
        cases h
      | ok n =>
        rw [hread] at h
        exact congrArg pure h

theorem checked?_of_macro? (h : draft.macro? = some m) (head : Head) (position : Nat) :
    checked? head draft position = pure (some m) := by
  unfold Draft.macro? at h
  split at h
  · rename_i hname
    obtain ⟨n, harity, rfl⟩ := Option.map_eq_some_iff.mp h
    simp [checked?, hname, arityOf_of_value? harity]
  · cases h

/-- **One step of the collection** that takes a definition out. -/
theorem collectHit_of_accepted? {text : Text} {s : Progress} {h : Hit Head} {stop : Nat}
    (hreached : ¬ (h.start < s.cursor ∨ Scan.isEscaped text h.start))
    (haccepted : accepted? text h = some (m, stop)) : collectHit text s h =
      pure ⟨stop, s.edits ++ [⟨h.start, stop, []⟩], enter h.value m s.macros⟩ := by
  obtain ⟨⟨draft, after⟩, hdraft, hmacro⟩ := Option.bind_eq_some_iff.mp haccepted
  obtain ⟨m', hm', heq⟩ := Option.map_eq_some_iff.mp hmacro
  cases heq
  simp [collectHit, if_neg hreached, hdraft, checked?_of_macro? hm']

theorem foldlM_collectHit_of_passed {text : Text} {s : Progress} {hs : List (Hit Head)}
    (h : ∀ hit ∈ hs, hit.start < s.cursor) : hs.foldlM (collectHit text) s = pure s := by
  induction hs with
  | nil => rfl
  | cons hit hs ih =>
    obtain ⟨hfirst, hrest⟩ := List.forall_mem_cons.mp h
    have hstep : collectHit text s hit = pure s := if_pos (.inl hfirst)
    rw [List.foldlM_cons, hstep, pure_bind, ih hrest]

/-- No command crosses the end of a definition. -/
theorem border_head (hd : ['}'] <:+ d) {before v after : Text} {value : Head} (hv : v ≠ [])
    (hsuffix : v <:+ d) (h : head before (v ++ more) = some (value, after)) : more <:+ after := by
  obtain ⟨w, htext, hw⟩ := exists_of_head h
  have hbrace : '}' ∈ v := (List.suffix_of_suffix_length_le hd hsuffix
    (List.length_pos_of_ne_nil hv)).subset List.mem_cons_self
  rcases List.append_eq_append_iff.mp htext with ⟨behind, hcommand, -⟩ | ⟨between, -, rfl⟩
  · -- the brace would belong to the command
    rcases List.mem_cons.mp (hcommand ▸ List.mem_append_left behind hbrace) with hslash | hmem
    · cases hslash
    · exact absurd (hw _ hmem) (by decide)
  · exact List.suffix_append between more

/-- **A definition is taken out as a whole**, wherever it stands, and the collection goes on behind
    it. -/
theorem foldlM_of_spans (hd : Spans d m) (hfront : escapedBehind false front = false)
    {s : Progress} (hcursor : s.cursor ≤ front.length) (hnew : m.name ∉ s.macros.names) :
    (hitsFrom head front.length front.reverse 0 (d ++ more)).foldlM
        (collectHit (front ++ (d ++ more))) s =
      (hitsFrom head (front ++ d).length (front ++ d).reverse 0 more).foldlM
        (collectHit (front ++ (d ++ more)))
        ⟨(front ++ d).length, s.edits ++ [⟨front.length, (front ++ d).length, []⟩],
          s.macros ++ [(m.name, m)]⟩ := by
  obtain ⟨value, u, draft, hread, hdraft, hmacro⟩ := hd.exists_draft
  obtain ⟨w, rfl, -⟩ := exists_of_head hread
  have hu : u ≠ [] := (draft?_behind hdraft).ne_nil
  have hcommand := head_append hread hu front.reverse more
  rw [List.append_assoc] at hcommand
  -- the defining command, the commands in its definition, and those behind it
  obtain ⟨inner, hinner, hhits⟩ := Scan.hitsFrom_append advances_head
    (front.length + ('\\' :: w).length) (('\\' :: w).reverse ++ front.reverse) u more
    fun x v value after hxv hv h =>
      border_head hd.brace_suffix hv ⟨'\\' :: w ++ x, by rw [hxv, List.append_assoc]⟩ h
  have hlength : front.length + ('\\' :: w).length + u.length =
      (front ++ ('\\' :: w ++ u)).length := by
    simp only [List.length_append, Nat.add_assoc]
  have hreverse : u.reverse ++ (('\\' :: w).reverse ++ front.reverse) =
      (front ++ ('\\' :: w ++ u)).reverse := by
    simp
  rw [hlength] at hinner hhits
  rw [hreverse] at hhits
  have haccepted : accepted? (front ++ ('\\' :: w ++ u ++ more))
      ⟨front.length, front.length + ('\\' :: w).length, value⟩ =
        some (m, (front ++ ('\\' :: w ++ u)).length) := by
    have hdrop : (front ++ ('\\' :: w ++ u ++ more)).drop (front.length + ('\\' :: w).length) =
        u ++ more := by
      rw [← List.drop_drop, List.drop_left, List.append_assoc, List.drop_left]
    have hstop : (front ++ ('\\' :: w ++ u ++ more)).length - more.length =
        (front ++ ('\\' :: w ++ u)).length := by
      simp only [List.length_append]
      omega
    simp only [accepted?, hdrop, draft?_append hdraft more, Option.bind_some, hmacro,
      Option.map_some, List.nil_append, hstop]
  have hreached : ¬ (front.length < s.cursor ∨
      Scan.isEscaped (front ++ ('\\' :: w ++ u ++ more)) front.length) := by
    rw [Scan.isEscaped_eq, List.take_left, hfront]
    exact not_or.mpr ⟨Nat.not_lt.mpr hcursor, Bool.false_ne_true⟩
  have hprovided : ∀ t : Table Macro, m.name ∉ t.names →
      enter value m t = t ++ [(m.name, m)] := by
    intro t ht
    have hhas : ¬ (value = .providecommand ∧ t.has m.name) := by
      rintro ⟨-, hhas⟩
      exact ht (Table.get?_isSome_iff.mp hhas)
    rw [enter, if_neg hhas, Table.put_of_not_mem m ht]
  rw [List.append_assoc ('\\' :: w), Scan.hitsFrom_of_some _ (List.cons_ne_nil _ _) hcommand,
    hhits, List.foldlM_cons, ← List.append_assoc ('\\' :: w),
    collectHit_of_accepted? hreached haccepted, pure_bind, List.foldlM_append,
    foldlM_collectHit_of_passed hinner, pure_bind, hprovided _ hnew]

end Definition

end TexMark
