/-
  TexMark/Proofs/Macro/Shadowing.lean
  ===================================
  **Shadowing.**  A document may define a macro of the name of a built-in one.  Its pass comes
  first, and it leaves no invocation of the name where it passes (`exists_invocation`): every one
  begins an invocation that is taken, or lies in the arguments of one.  But a pass does not read
  what it puts in.  An invocation in an argument of another one of the same name is still there
  when the built-in macros are expanded, and it gets the built-in body
  (`builtin_body_of_nested`).

  Nothing else brings the name back (`shadow_of_builtin`), if the definitions of the document
  do not mention it and no seam glues it together.
-/
import TexMark.Conversion
import TexMark.Proofs.Definitions
import TexMark.Proofs.Macro.Seams
import Mathlib.Data.List.Sort

namespace TexMark.Macro

open Definition (isName)
open Scan (escapedBehind)
open Text (isAsciiLetter slice)
open Markup (IsName StandsAt controlWords gluedWords)

variable {m : Macro} {text : Text} {w : Text}

theorem closes_of_isName {name : Text} (h : isName name) : Closes name := by
  obtain ⟨hne, hletters⟩ := Definition.isName_iff.mp h
  have hlast := Text.ne_backslash_of_isAsciiLetter (hletters _ (List.getLast_mem hne))
  rw [Closes, Scan.escapedBehind_cons]
  exact Scan.escapedBehind_of_getLast hne hlast

/-! ### Every invocation is met -/

theorem oneCommand_invocation (hname : '\\' ∉ m.name) : Scan.OneCommand m.invocation := by
  intro before t value after h
  obtain ⟨after', hword, heq⟩ := Option.map_eq_some_iff.mp h
  cases heq
  exact ⟨m.name, Text.dropPrefix?_eq_some_iff.mp (Option.filter_eq_some_iff.mp hword).1, hname⟩

theorem exists_hit (hname : '\\' ∉ m.name) {pos : Nat} (h : StandsAt m.name text pos) :
    ∃ hit ∈ Scan.hits m.invocation text, hit.start = pos := by
  obtain ⟨u, v, rfl, rfl, -, hends⟩ := h
  have hread : m.invocation u.reverse ('\\' :: m.name ++ v) = some ((), v) := by
    have hcommand : Markup.command? m.name ('\\' :: m.name ++ v) = some v :=
      Text.dropPrefix?_eq_some_iff.mpr rfl
    have hnameEnds : Markup.nameEnds v = true := by
      cases v with
      | nil => rfl
      | cons c v => simpa [Markup.nameEnds] using hends.ends c rfl
    rw [invocation, Markup.word?, hcommand, Option.filter_some, hnameEnds]
    rfl
  refine ⟨⟨u.length, (u ++ '\\' :: m.name).length, ()⟩,
    Scan.mem_hits_of_read (oneCommand_invocation hname) ?_ ?_ ?_, rfl⟩
  · have hdrop : (u ++ '\\' :: (m.name ++ v)).drop (u ++ '\\' :: m.name).length = v := by
      rw [← List.cons_append, ← List.append_assoc, List.drop_left]
    rw [List.take_left, List.drop_left, hdrop]
    exact hread
  · simp
  · simp

/-- **What a pass leaves out** lies in the arguments of an invocation that it takes. -/
theorem exists_taken {hs : List (Hit Unit)} (hhits : ∀ h ∈ hs, h ∈ Scan.hits m.invocation text)
    (hsorted : hs.Pairwise fun a b => a.start < b.start) {cursor : Nat} {h : Hit Unit}
    (hmem : h ∈ hs) (hcursor : cursor ≤ h.start) (hescaped : Scan.isEscaped text h.start = false) :
    ∃ h' ∈ m.taken text cursor hs, h'.start ≤ h.start ∧ h.start < m.stopAt text h' := by
  induction hs generalizing cursor with
  | nil => cases hmem
  | cons first hs ih =>
    obtain ⟨hfirst, hhits⟩ := List.forall_mem_cons.mp hhits
    obtain ⟨hbehind, hsorted⟩ := List.pairwise_cons.mp hsorted
    rw [taken]
    split
    · -- what is skipped is escaped, or stands in front of the cursor
      rename_i hskip
      rcases List.mem_cons.mp hmem with rfl | hmem
      · simp [hescaped] at hskip
        omega
      · exact ih hhits hsorted hmem hcursor
    · rcases List.mem_cons.mp hmem with rfl | hmem
      · exact ⟨h, List.mem_cons_self, Nat.le_refl _, (read_of_mem_hits hfirst).2.2.1⟩
      · by_cases hinside : h.start < m.stopAt text first
        · exact ⟨first, List.mem_cons_self, (hbehind h hmem).le, hinside⟩
        · obtain ⟨h', hmem', hbounds⟩ := ih hhits hsorted hmem (Nat.le_of_not_lt hinside)
          exact ⟨h', List.mem_cons_of_mem first hmem', hbounds⟩

/-- **Every invocation** begins one that is taken, or lies in the arguments of one. -/
theorem exists_invocation (hname : '\\' ∉ m.name) {pos : Nat} (h : StandsAt m.name text pos) :
    ∃ h' ∈ m.invocations text, h'.start ≤ pos ∧ pos < m.stopAt text h' := by
  obtain ⟨hit, hmem, rfl⟩ := exists_hit hname h
  have hescaped : Scan.isEscaped text hit.start = false := by
    obtain ⟨u, v, htext, hlength, hu, -⟩ := h
    rw [Scan.isEscaped_eq, ← hlength, htext, List.take_left]
    exact hu
  have hsorted := (Scan.pairwise_hits m.invocation text).imp And.right
  exact exists_taken (fun _ h => h) hsorted hmem (Nat.zero_le _) hescaped

theorem standsAt_of_mem_taken (hname : isName m.name) {hs : List (Hit Unit)}
    (hhits : ∀ h ∈ hs, h ∈ Scan.hits m.invocation text) {cursor : Nat} {h : Hit Unit}
    (hmem : h ∈ m.taken text cursor hs) : StandsAt m.name text h.start := by
  induction hs generalizing cursor with
  | nil => cases hmem
  | cons first hs ih =>
    obtain ⟨hfirst, hhits⟩ := List.forall_mem_cons.mp hhits
    rw [taken] at hmem
    split at hmem
    · exact ih hhits hmem
    · rename_i hreached
      rcases List.mem_cons.mp hmem with rfl | hmem
      · rw [not_or, Bool.not_eq_true, Scan.isEscaped_eq] at hreached
        obtain ⟨hread, hends, hlt, hsize⟩ := read_of_mem_hits hfirst
        obtain ⟨hne, hletters⟩ := Definition.isName_iff.mp hname
        refine ⟨text.take h.start, text.drop h.stop, ?_, ?_, hreached.2, hne, hletters, ?_⟩
        · rw [← List.cons_append, ← hread, List.take_append_drop]
        · rw [List.length_take]
          omega
        · intro c hc
          cases hrest : text.drop h.stop with
          | nil => simp [hrest] at hc
          | cons d rest =>
            rw [hrest] at hc hends
            cases hc
            simpa [Markup.nameEnds] using hends
      · exact ih hhits hmem

theorem mem_controlWords_of_invocations (hname : isName m.name) (h : m.invocations text ≠ []) :
    m.name ∈ controlWords text := by
  obtain ⟨hit, hmem⟩ := List.exists_mem_of_ne_nil _ h
  exact Markup.mem_controlWords_iff_standsAt.mpr ⟨_, standsAt_of_mem_taken hname (fun _ h => h) hmem⟩

/-! ### What a pass leaves of its name -/

theorem name_not_mem_of_copied (hname : '\\' ∉ m.name) {start stop : Nat}
    (h : Copied m text (m.invocations text) start stop) :
    m.name ∉ controlWords (slice text start stop) := by
  intro hw
  obtain ⟨pos, hpos⟩ := Markup.mem_controlWords_iff_standsAt.mp hw
  have hlt : pos < stop - start ∧ start + pos < text.length := by
    have hlength := hpos.lt
    rw [slice, List.length_drop, List.length_take] at hlength
    omega
  -- in the whole text it is an invocation, so it lies in one that is taken, and so not here
  have hwhole := hpos.of_infix h.begins h.ends
  rw [Text.take_append_slice text h.le, List.length_take_of_le (by omega)] at hwhole
  obtain ⟨hit, hmem, hstart, hstop⟩ := exists_invocation hname hwhole
  rcases h.outside hit hmem with hbefore | hbehind <;> omega

/-- **Behind the pass of a macro** its name is left in arguments only, or comes from its own
    definition, or is glued. -/
theorem name_of_expanded (hname : isName m.name) (h : m.name ∈ controlWords (m.expanded text)) :
    m.Brings m.name ∨
      (∃ hit ∈ m.invocations text, ∃ arg ∈ m.argsAt text hit, m.name ∈ controlWords arg) ∨
      m.name ∈ gluedWords (m.fragments text) := by
  rcases Markup.controlWords_flatten h with ⟨fragment, hfragment, hw⟩ | hglued
  · rcases mem_fragmentsFrom (closes_of_isName hname) (inTurn_invocations m text) rfl hfragment with
      ⟨start, stop, rfl, -, hcopied⟩ | hliteral | ⟨hit, hmem, harg⟩ | rfl
    · exact absurd hw (name_not_mem_of_copied (Definition.not_mem_of_isName hname) hcopied)
    · exact .inl (.inl (controlWords_of_literal hliteral hw))
    · exact .inr (.inl ⟨hit, hmem, fragment, harg, hw⟩)
    · cases hw
  · exact .inr (.inr hglued)

/-- A pass that comes later brings the name back only if it glues it, where no definition has it. -/
theorem name_of_expandedBy {behind : List Macro} (hnames : ∀ u ∈ m :: behind, isName u.name)
    (hbrings : ∀ u ∈ m :: behind, ¬ u.Brings m.name)
    (h : m.name ∈ controlWords (expandedBy (m :: behind) text)) :
    (∃ hit ∈ m.invocations text, ∃ arg ∈ m.argsAt text hit, m.name ∈ controlWords arg) ∨
      m.name ∈ gluedIn (m :: behind) text := by
  obtain ⟨hname, hothers⟩ := List.forall_mem_cons.mp hnames
  obtain ⟨hown, hbrings⟩ := List.forall_mem_cons.mp hbrings
  have hcloses : ∀ u ∈ behind, Closes u.name := fun u hu => closes_of_isName (hothers u hu)
  rcases controlWords_expandedBy hcloses h with hfirst | ⟨u, hu, hbrought⟩ | hglued
  · rcases name_of_expanded hname hfirst with hbrought | harg | hglued
    · exact absurd hbrought hown
    · exact .inl harg
    · exact .inr (List.mem_append_left _ hglued)
  · exact absurd hbrought (hbrings u hu)
  · exact .inr (List.mem_append_right _ hglued)

/-! ### Built-in macros -/

instance decidableBrings (m : Macro) (w : Text) : Decidable (m.Brings w) :=
  inferInstanceAs (Decidable (_ ∨ _))

theorem isName_builtin : ∀ b ∈ builtin, isName b.name := by decide

theorem not_brings_builtin : ∀ a ∈ builtin, ∀ b ∈ builtin, ¬ a.Brings b.name := by decide

theorem name_of_expandedBy_builtin {front : List Macro} (hfront : ∀ a ∈ front, a ∈ builtin)
    {b : Macro} (hb : b ∈ builtin) (h : b.name ∈ controlWords (expandedBy front text)) :
    b.name ∈ controlWords text := by
  have hcloses : ∀ a ∈ front, Closes a.name :=
    fun a ha => closes_of_isName (isName_builtin a (hfront a ha))
  rcases controlWords_expandedBy hcloses h with htext | ⟨a, ha, hbrought⟩ | hglued
  · exact htext
  · exact absurd hbrought (not_brings_builtin a (hfront a ha) b hb)
  · rw [gluedIn_of_guarded hcloses fun a ha => guarded_builtin a (hfront a ha)] at hglued
    cases hglued

theorem expandsBefore_total (a b : Macro) : expandsBefore a b || expandsBefore b a := by
  unfold expandsBefore
  rcases Nat.lt_trichotomy a.name.length b.name.length with h | h | h
  · simp [h]
  · simpa [h] using Text.le_total a.name b.name
  · simp [h]

theorem expandsBefore_trans {a b c : Macro} (hab : expandsBefore a b) (hbc : expandsBefore b c) :
    expandsBefore a c := by
  simp only [expandsBefore, Bool.or_eq_true, Bool.and_eq_true, decide_eq_true_eq,
    beq_iff_eq] at hab hbc ⊢
  rcases hab with hab | ⟨hab, hle⟩ <;> rcases hbc with hbc | ⟨hbc, hle'⟩
  · exact .inl (by omega)
  · exact .inl (by omega)
  · exact .inl (by omega)
  · exact .inr ⟨by omega, Text.le_trans hle hle'⟩

def builtinInOrder : List Macro :=
  ⟨"norm", 1, "\\left\\|#1\\right\\|", none⟩ :: ⟨"abs", 1, "\\left|#1\\right|", none⟩ ::
    ((['C', 'N', 'Q', 'R', 'Z'].map fun c => ⟨[c, c], 0, blackboard c, none⟩) ++
      (['C', 'N', 'Q', 'R', 'Z'].map fun c => ⟨[c], 0, blackboard c, none⟩))

theorem mergeSort_builtin : builtin.mergeSort expandsBefore = builtinInOrder := by
  have hsorted : (builtin.mergeSort expandsBefore).Pairwise fun a b => expandsBefore a b := by
    apply List.pairwise_mergeSort
    · exact fun _ _ _ => expandsBefore_trans
    · exact expandsBefore_total
  have hperm : builtin.Perm builtinInOrder := by decide
  have hdistinct : ∀ a ∈ builtin, ∀ b ∈ builtin, expandsBefore a b → expandsBefore b a → a = b := by
    decide
  refine List.Perm.eq_of_pairwise ?_ hsorted (by decide) ((List.mergeSort_perm _ _).trans hperm)
  intro a b ha hb
  exact hdistinct a (List.mem_mergeSort.mp ha) b (hperm.mem_iff.mpr hb)

/-! ### The two expansions of a document -/

theorem exists_split_of_mem {ms : List Macro} (h : m ∈ ms) :
    ∃ before behind, ms.mergeSort expandsBefore = before ++ m :: behind :=
  List.append_of_mem (List.mem_mergeSort.mpr h)

theorem expandedBy_append (ms ms' : List Macro) (text : Text) :
    expandedBy (ms ++ ms') text = expandedBy ms' (expandedBy ms text) :=
  List.foldl_append

/-- The macros of a document are expanded first, and then those that are built in. -/
theorem result_applyMacros {rest : Text} {macros : Table Macro}
    (h : (Definition.collect text).result = .ok (rest, macros)) :
    (Phase.applyMacros text .empty).result =
      .ok (expandedBy (builtin.mergeSort expandsBefore)
        (expandedBy (macros.values.mergeSort expandsBefore) rest),
        { State.empty with macros := macros }) := by
  have hmerge : State.empty.macros.merge macros = macros :=
    Table.merge_eq_append (Definition.named_collect h).nodup
  rw [Phase.applyMacros, Noted.bind_of_ok h]
  dsimp only
  rw [hmerge, Noted.bind_of_ok (result_expandAll macros.values rest),
    Noted.bind_of_ok (result_expandAll builtin _)]
  rfl

/-- **A definition shadows the built-in macro of its name.**  Its pass meets every invocation that
    is there when it comes; and if the built-in macro is expanded at all, then an invocation lay in
    an argument of another one, or the name has been glued. -/
theorem shadow_of_builtin {rest : Text} {macros : Table Macro} {b : Macro}
    (hcollect : (Definition.collect text).result = .ok (rest, macros)) (hb : b ∈ builtin)
    (hm : macros.get? b.name = some m) (hbrings : ∀ u ∈ macros.values, ¬ u.Brings b.name) :
    ∃ before behind front back,
      macros.values.mergeSort expandsBefore = before ++ m :: behind ∧
      builtin.mergeSort expandsBefore = front ++ b :: back ∧
      let reached := expandedBy before rest
      let shown := expandedBy front (expandedBy (m :: behind) reached)
      (Phase.applyMacros text .empty).result =
        .ok (expandedBy (b :: back) shown, { State.empty with macros := macros }) ∧
      (∀ pos, StandsAt b.name reached pos →
        ∃ hit ∈ m.invocations reached, hit.start ≤ pos ∧ pos < m.stopAt reached hit) ∧
      (b.invocations shown ≠ [] →
        (∃ hit ∈ m.invocations reached, ∃ arg ∈ m.argsAt reached hit,
          b.name ∈ controlWords arg) ∨
        b.name ∈ gluedIn (m :: behind) reached) := by
  have hnamed := Definition.named_collect hcollect
  have hentry : (b.name, m) ∈ macros := Table.mem_of_get? hm
  have hname : m.name = b.name := hnamed.own _ hentry
  have hisName : ∀ u ∈ macros.values, isName u.name := by
    intro u hu
    obtain ⟨e, he, rfl⟩ := List.mem_map.mp hu
    exact hnamed.own e he ▸ hnamed.isName e he
  have hvalue : m ∈ macros.values := List.mem_map.mpr ⟨_, hentry, rfl⟩
  obtain ⟨before, behind, hsorted⟩ := exists_split_of_mem hvalue
  obtain ⟨front, back, hbuiltin⟩ := exists_split_of_mem hb
  have hpasses : ∀ u ∈ m :: behind, u ∈ macros.values := fun u hu =>
    List.mem_mergeSort.mp (hsorted ▸ List.mem_append_right before hu)
  have hfront : ∀ a ∈ front, a ∈ builtin := fun a ha =>
    List.mem_mergeSort.mp (hbuiltin ▸ List.mem_append_left (b :: back) ha)
  refine ⟨before, behind, front, back, hsorted, hbuiltin, ?_, ?_, ?_⟩
  · rw [result_applyMacros hcollect, hsorted, hbuiltin, expandedBy_append, expandedBy_append]
  · intro pos hpos
    rw [← hname] at hpos
    exact exists_invocation (Definition.not_mem_of_isName (hisName m hvalue)) hpos
  · intro hinvoked
    -- back from the built-in pass: through the built-in macros in front of it, through the passes
    -- of the document behind its own, and through its own
    have hshown := mem_controlWords_of_invocations (isName_builtin b hb) hinvoked
    have hexpanded := name_of_expandedBy_builtin hfront hb hshown
    rw [← hname] at hexpanded ⊢
    refine name_of_expandedBy (fun u hu => hisName u (hpasses u hu)) ?_ hexpanded
    intro u hu
    rw [hname]
    exact hbrings u (hpasses u hu)

theorem shadow_of_builtin_norm :
    let defined : Macro := ⟨"norm", 1, "N(#1)", none⟩
    let shadowed : Macro := ⟨"norm", 1, "\\left\\|#1\\right\\|", none⟩
    let doc : Text := "\\newcommand" ++ Text.braced "\\norm" ++ "[1]{N(#1)}\\norm{x}"
    (Definition.collect doc).result = .ok ("\\norm{x}", [("norm", defined)]) ∧
      shadowed ∈ builtin ∧ ¬ defined.Brings "norm" ∧
      ∃ front back, builtin.mergeSort expandsBefore = front ++ shadowed :: back ∧
        shadowed.invocations (expandedBy front "N(x)") = [] := by
  intro defined shadowed doc
  have hfold : ((Scan.hits Definition.head doc).foldlM (Definition.collectHit doc)
      ⟨0, [], []⟩).result = .ok ⟨28, [⟨0, 28, []⟩], [("norm", defined)]⟩ := by
    rfl
  have hcollect : (Definition.collect doc).result =
      .ok ("\\norm{x}", [("norm", defined)]) := Definition.result_collect hfold
  have hshadowed : shadowed ∈ builtin := by decide
  have hbrings : ¬ defined.Brings "norm" := by decide
  obtain ⟨before, behind, front, back, hsorted, hbuiltin, -, -, hleft⟩ :=
    shadow_of_builtin hcollect hshadowed rfl (List.forall_mem_singleton.mpr hbrings)
  have halone : before = [] ∧ behind = [] := by
    have hsingle : [defined] = before ++ defined :: behind :=
      (List.mergeSort_singleton defined).symm.trans hsorted
    rcases List.singleton_eq_append_iff.mp hsingle with ⟨hbefore, hbehind⟩ | ⟨-, hbehind⟩
    · exact ⟨hbefore, (List.cons.inj hbehind).2⟩
    · cases hbehind
  obtain ⟨rfl, rfl⟩ := halone
  refine ⟨hcollect, hshadowed, hbrings, front, back, hbuiltin, ?_⟩
  by_contra hinvoked
  rcases hleft hinvoked with harg | hglued
  · revert harg
    decide
  · revert hglued
    decide

/-- **An invocation in an argument of another one** gets the built-in body, although the document
    defines the macro: the pass of its definition puts the argument in as it is. -/
theorem builtin_body_of_nested :
    let defined : Macro := ⟨"norm", 1, "N(#1)", none⟩
    let doc : Text := "\\newcommand\x7b\\norm\x7d[1]{N(#1)}\\norm\x7b\\norm{x}\x7d"
    let rest : Text := "\\norm\x7b\\norm{x}\x7d"
    (Definition.collect doc).result = .ok (rest, [("norm", defined)]) ∧
      ¬ defined.Brings "norm" ∧ defined.expanded rest = "N(\\norm{x})" ∧
      (Phase.applyMacros doc .empty).result =
        .ok ("N(\\left\\|x\\right\\|)", { State.empty with macros := [("norm", defined)] }) := by
  intro defined doc rest
  have hfold : ((Scan.hits Definition.head doc).foldlM (Definition.collectHit doc)
      ⟨0, [], []⟩).result = .ok ⟨28, [⟨0, 28, []⟩], [("norm", defined)]⟩ := by
    rfl
  have hcollect : (Definition.collect doc).result = .ok (rest, [("norm", defined)]) :=
    Definition.result_collect hfold
  have hsingle : (Table.values [("norm", defined)]).mergeSort expandsBefore = [defined] :=
    List.mergeSort_singleton defined
  have hshown : expandedBy builtinInOrder (expandedBy [defined] rest) =
      "N(\\left\\|x\\right\\|)" := by
    decide +kernel
  have hresult := result_applyMacros hcollect
  rw [hsingle, mergeSort_builtin, hshown] at hresult
  exact ⟨hcollect, by decide, by decide, hresult⟩

end TexMark.Macro
