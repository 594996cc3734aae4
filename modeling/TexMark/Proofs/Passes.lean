/-
  TexMark/Proofs/Passes.lean
  ==========================
  **The edits of a pass fit.**  Macro expansion and citations move a cursor behind each
  construct they replace (`Laid`); references and sizing commands are found by `Scan.hits` and
  lie apart from the start.  For each of these passes stands here

    * that the edits it collects fit into the text (`edits_expand`, `edits_format`, …), so
      that applying them refuses nothing and the pass has a result;
    * that it never reports the failure of a phase (`noFailure_…`), and the pass of the
      delimiters does not either.
-/
import TexMark.Proofs.Edits
import TexMark.Proofs.Notes
import TexMark.Proofs.Readers

namespace TexMark

open Noted

/-- Edits that a pass has **laid** behind each other, up to its cursor. -/
structure Laid (size cursor : Nat) (edits : List Edit) : Prop where
  ordered : Edit.Ordered 0 cursor edits
  within : cursor ≤ size

namespace Laid

variable {size cursor : Nat} {edits : List Edit}

theorem start : Laid size 0 [] := ⟨.nil, Nat.zero_le _⟩

/-- A construct behind the cursor is replaced, and the cursor moves behind it. -/
theorem add (h : Laid size cursor edits) {start stop : Nat} (hcursor : cursor ≤ start)
    (hstart : start < stop) (hstop : stop ≤ size) (replacement : Text) :
    Laid size stop (edits ++ [⟨start, stop, replacement⟩]) :=
  ⟨h.ordered.concat hcursor (Nat.zero_le _) hstart (Nat.le_refl _), hstop⟩

theorem fit (h : Laid size cursor edits) : Edit.Fit 0 size edits :=
  (h.ordered.mono (Nat.le_refl _) h.within).fit

end Laid

/-- A construct that is read on from a hit ends inside the text, behind the start of the hit. -/
theorem Hit.bounds_of_suffix {α : Type} {h : Hit α} {text after : Text} (hlt : h.start < h.stop)
    (hstop : h.stop ≤ text.length) (hafter : after <:+ text.drop h.stop) :
    h.start < text.length - after.length ∧ text.length - after.length ≤ text.length := by
  have := hafter.length_le
  rw [List.length_drop] at this
  omega

/-- Edits that fit into the text are applied. -/
theorem Noted.result_edited {text : Text} {edits : List Edit}
    (h : Edit.Fit 0 text.length edits) :
    (edited text edits).result = .ok (Edit.splice text 0 text.length (Edit.inOrder edits)) := by
  simp only [edited, editedWithin, Edit.applyWithin_eq_splice text h, Except.mapError]

theorem Noted.edited_of_ordered {text : Text} {edits : List Edit}
    (h : Edit.Ordered 0 text.length edits) :
    edited text edits = pure (Edit.splice text 0 text.length edits) := by
  refine Noted.ext rfl ((result_edited h.fit).trans ?_)
  rw [h.inOrder_eq]
  rfl

/-- What a pass collects is applied, if it stands in order. -/
theorem Noted.bind_edited_of_eq {α : Type} {text : Text} {x : Noted α} {notes : List Diagnostic}
    {a : α} (h : x = ⟨notes, .ok a⟩) (edits : α → List Edit)
    (hordered : Edit.Ordered 0 text.length (edits a)) :
    (x >>= fun a => edited text (edits a)) =
      ⟨notes, .ok (Edit.splice text 0 text.length (edits a))⟩ := by
  rw [h, bind_of_ok rfl]
  dsimp only
  rw [edited_of_ordered hordered]
  exact Noted.ext (List.append_nil notes) rfl

theorem Laid.edited_eq {text : Text} {cursor : Nat} {edits : List Edit}
    (h : Laid text.length cursor edits) :
    Noted.edited text edits = pure (Edit.splice text 0 text.length edits) :=
  Noted.edited_of_ordered (h.ordered.mono (Nat.le_refl _) h.within)

/-! ### Macro expansion -/

namespace Macro

theorem laid_expandHit {m : Macro} {text : Text} {s : Progress} {h : Hit Unit}
    (hmem : h ∈ Scan.hits m.invocation text) (hs : Laid text.length s.cursor s.edits) :
    ∃ s', (expandHit m text s h).result = .ok s' ∧ Laid text.length s'.cursor s'.edits := by
  obtain ⟨-, hlt, hstop⟩ := Scan.hit_spec m.advances_invocation hmem
  unfold expandHit
  split
  · exact ⟨s, rfl, hs⟩
  · rename_i htaken
    have hafter := m.argumentsOf_suffix (text.drop h.stop)
    rcases hread : m.argumentsOf (text.drop h.stop) with ⟨args, after⟩
    rw [hread] at hafter
    obtain ⟨hstart, hsize⟩ := Hit.bounds_of_suffix hlt hstop hafter
    have hlaid := hs.add (by omega) hstart hsize (substitute args m.body)
    dsimp only
    split <;> exact ⟨_, rfl, hlaid⟩

/-- **The edits of an expansion fit.** -/
theorem edits_expand (m : Macro) (text : Text) :
    ∃ s, ((Scan.hits m.invocation text).foldlM (expandHit m text) ⟨0, []⟩).result = .ok s ∧
      Edit.Fit 0 text.length s.edits := by
  obtain ⟨s, hs, hlaid⟩ := exists_foldlM (f := expandHit m text)
    (fun _ _ s => Laid text.length s.cursor s.edits) (a := ⟨0, []⟩)
    (Scan.hits m.invocation text) Laid.start fun taken _ s h htaken hs =>
      laid_expandHit (htaken.subset (List.mem_append_right _ (List.mem_singleton_self h))) hs
  exact ⟨s, hs, hlaid.fit⟩

theorem exists_result_expand (m : Macro) (text : Text) : ∃ t, (m.expand text).result = .ok t := by
  obtain ⟨s, hs, hfit⟩ := edits_expand m text
  exact ⟨_, by rw [expand, bind_of_ok hs]; exact result_edited hfit⟩

theorem noFailure_expand (m : Macro) (text : Text) : NoFailure (m.expand text) := by
  refine only_bind (only_foldlM (fun s h => ?_) _ _) fun s => only_edited _ _
  unfold expandHit
  split
  · exact only_pure s
  · rcases m.argumentsOf (text.drop h.stop) with ⟨args, after⟩
    dsimp only
    split
    · exact only_bind (only_report (by decide) _ _) fun _ => only_pure _
    · exact only_pure _

theorem exists_result_expandAll (ms : List Macro) (text : Text) :
    ∃ t, (expandAll ms text).result = .ok t := by
  obtain ⟨t, ht, -⟩ := exists_foldlM (f := fun t (m : Macro) => m.expand t)
    (fun _ _ _ => True) (a := text) (ms.mergeSort expandsBefore) trivial
    fun _ _ t m _ _ => (exists_result_expand m t).imp fun _ h => ⟨h, trivial⟩
  exact ⟨t, ht⟩

theorem noFailure_expandAll (ms : List Macro) (text : Text) : NoFailure (expandAll ms text) :=
  only_foldlM (fun t m => noFailure_expand m t) _ _

end Macro

/-! ### Citations -/

namespace Citation

theorem exists_result_formatKeys (templates : Table Text) (name keys : Text) (position : Nat) :
    ∃ t, (formatKeys templates name keys position).result = .ok t := by
  refine exists_result_bind (exists_result_mapM (fun key => ?_) _) fun _ => ⟨_, rfl⟩
  unfold formatKey
  split
  · exact ⟨none, rfl⟩
  · split <;> exact ⟨_, rfl⟩

theorem noFailure_formatKeys (templates : Table Text) (name keys : Text) (position : Nat) :
    NoFailure (formatKeys templates name keys position) := by
  refine only_bind (only_mapM (fun key => ?_) _) fun _ => only_pure _
  unfold formatKey
  split
  · exact only_bind (only_report (by decide) _ _) fun _ => only_pure _
  · dsimp only
    split
    · exact only_bind (only_report (by decide) _ _) fun _ => only_pure _
    · exact only_pure _

theorem laid_formatHit {templates : Table Text} {text : Text} {s : Progress} {h : Hit Text}
    (hmem : h ∈ Scan.hits command text) (hs : Laid text.length s.cursor s.edits) :
    ∃ s', (formatHit templates text s h).result = .ok s' ∧
      Laid text.length s'.cursor s'.edits := by
  obtain ⟨-, hlt, hstop⟩ := Scan.hit_spec advances_command hmem
  unfold formatHit
  split
  · exact ⟨s, rfl, hs⟩
  · rename_i htaken
    simp only
    split
    · exact ⟨s, rfl, hs⟩
    · rename_i keys after hkeys
      have hafter : after <:+ text.drop h.stop :=
        (Group.read?_skipSpaces_behind hkeys).1.trans (notes_suffix 2 _)
      obtain ⟨hstart, hsize⟩ := Hit.bounds_of_suffix hlt hstop hafter
      obtain ⟨shown, hshown⟩ := exists_result_formatKeys templates h.value keys h.start
      refine ⟨_, by rw [bind_of_ok hshown]; rfl, hs.add (by omega) hstart hsize _⟩

/-- **The edits of the citations fit.** -/
theorem edits_format (templates : Table Text) (text : Text) :
    ∃ s, ((Scan.hits command text).foldlM (formatHit templates text) ⟨0, []⟩).result = .ok s ∧
      Edit.Fit 0 text.length s.edits := by
  obtain ⟨s, hs, hlaid⟩ := exists_foldlM (f := formatHit templates text)
    (fun _ _ s => Laid text.length s.cursor s.edits) (a := ⟨0, []⟩)
    (Scan.hits command text) Laid.start fun taken _ s h htaken hs =>
      laid_formatHit (htaken.subset (List.mem_append_right _ (List.mem_singleton_self h))) hs
  exact ⟨s, hs, hlaid.fit⟩

theorem exists_result_format (templates : Table Text) (text : Text) :
    ∃ t, (format templates text).result = .ok t := by
  obtain ⟨s, hs, hfit⟩ := edits_format templates text
  exact ⟨_, by rw [format, bind_of_ok hs]; exact result_edited hfit⟩

theorem noFailure_format (templates : Table Text) (text : Text) :
    NoFailure (format templates text) := by
  refine only_bind (only_foldlM (fun s h => ?_) _ _) fun s => only_edited _ _
  unfold formatHit
  split
  · exact only_pure s
  · simp only
    split
    · exact only_pure s
    · exact only_bind (noFailure_formatKeys _ _ _ _) fun _ => only_pure _

end Citation

/-! ### Passes over hits -/

/-- Of hits that lie apart, each begins behind all that were taken before it. -/
theorem Hit.stop_le_of_prefix {α : Type} {found taken : List (Hit α)} {h : Hit α}
    (hapart : found.Pairwise fun a b => a.stop ≤ b.start ∧ a.start < b.start)
    (htaken : (taken ++ [h]) <+: found) : ∀ a ∈ taken, a.stop ≤ h.start := by
  intro a ha
  have htaken := (List.pairwise_append.mp (hapart.sublist htaken.sublist)).2.2
  exact (htaken a ha h (List.mem_singleton_self h)).1

/-- Edits **up to** hits: none of them goes on behind the last of the hits. -/
def EditsUpTo {α : Type} (taken : List (Hit α)) (edits : List Edit) : Prop :=
  ∀ bound, (∀ a ∈ taken, a.stop ≤ bound) → Edit.Ordered 0 bound edits

namespace EditsUpTo

variable {α : Type} {taken : List (Hit α)} {h : Hit α} {edits : List Edit}

theorem nil : EditsUpTo (α := α) [] [] := fun _ _ => .nil

theorem skip (hedits : EditsUpTo taken edits) : EditsUpTo (taken ++ [h]) edits :=
  fun bound hbound => hedits bound fun a ha => hbound a (List.mem_append_left _ ha)

/-- The last hit ends a construct that begins behind all edits. -/
theorem add {start : Nat} (hedits : Edit.Ordered 0 start edits) (hstart : start < h.stop)
    (replacement : Text) : EditsUpTo (taken ++ [h]) (edits ++ [⟨start, h.stop, replacement⟩]) :=
  fun _ hbound => hedits.concat (Nat.le_refl _) (Nat.zero_le _) hstart
    (hbound h (List.mem_append_right _ (List.mem_singleton_self h)))

theorem fit {size : Nat} (hedits : EditsUpTo taken edits) (hsize : ∀ a ∈ taken, a.stop ≤ size) :
    Edit.Fit 0 size edits := (hedits size hsize).fit

end EditsUpTo

/-! ### References -/

namespace Reference

theorem exists_result_lookedUp (templates : Table Text) (labels : Table Label.Record)
    (name label : Text) (position : Nat) :
    ∃ t, (lookedUp templates labels name label position).result = .ok t := by
  unfold lookedUp
  split
  · exact ⟨_, rfl⟩
  · split <;> exact ⟨_, rfl⟩

theorem noFailure_lookedUp (templates : Table Text) (labels : Table Label.Record)
    (name label : Text) (position : Nat) :
    NoFailure (lookedUp templates labels name label position) := by
  unfold lookedUp
  split
  · exact only_bind (only_report (by decide) _ _) fun _ => only_pure _
  · split
    · exact only_bind (only_report (by decide) _ _) fun _ => only_pure _
    · exact only_pure _

section

variable (mode : ReferenceMode) (templates : Table Text) (labels : Table Label.Record)
  (text : Text)

theorem edits_replaceHit {taken : List (Hit Command)} {edits : List Edit} {h : Hit Command}
    (htaken : (taken ++ [h]) <+: Scan.hits command text) (hedits : EditsUpTo taken edits) :
    ∃ edits', (replaceHit mode templates labels text edits h).result = .ok edits' ∧
      EditsUpTo (taken ++ [h]) edits' := by
  have hmem : h ∈ Scan.hits command text :=
    htaken.subset (List.mem_append_right _ (List.mem_singleton_self h))
  obtain ⟨-, hlt, -⟩ := Scan.hit_spec advances_command hmem
  have hbefore := Hit.stop_le_of_prefix (Scan.pairwise_hits command text) htaken
  unfold replaceHit
  split
  · exact ⟨edits, rfl, hedits.skip⟩
  · have hadd : ∀ shown, EditsUpTo (taken ++ [h]) (edits ++ [⟨h.start, h.stop, shown⟩]) :=
      EditsUpTo.add (hedits h.start hbefore) hlt
    dsimp only
    split
    · exact ⟨_, rfl, hadd _⟩
    · obtain ⟨shown, hshown⟩ := exists_result_lookedUp templates labels h.value.name
        (Text.strip h.value.label) h.start
      exact ⟨_, by rw [bind_of_ok hshown]; rfl, hadd shown⟩

/-- **The edits of the references fit.** -/
theorem edits_replaceAll :
    ∃ edits, ((Scan.hits command text).foldlM (replaceHit mode templates labels text) []).result =
        .ok edits ∧ Edit.Fit 0 text.length edits := by
  obtain ⟨edits, hedits, hupTo⟩ := exists_foldlM (f := replaceHit mode templates labels text)
    (fun taken _ edits => EditsUpTo taken edits) (a := [])
    (Scan.hits command text) .nil fun _ _ _ _ htaken hedits =>
      edits_replaceHit mode templates labels text htaken hedits
  exact ⟨edits, hedits, hupTo.fit fun a ha => (Scan.bounds_of_mem_hits ha).2⟩

theorem exists_result_replaceAll :
    ∃ t, (replaceAll mode templates labels text).result = .ok t := by
  obtain ⟨edits, hedits, hfit⟩ := edits_replaceAll mode templates labels text
  unfold replaceAll
  split
  · exact ⟨text, rfl⟩
  · exact ⟨_, by rw [bind_of_ok hedits]; exact result_edited hfit⟩

theorem noFailure_replaceAll : NoFailure (replaceAll mode templates labels text) := by
  unfold replaceAll
  split
  · exact only_pure text
  · refine only_bind (only_foldlM (fun edits h => ?_) _ _) fun _ => only_edited _ _
    unfold replaceHit
    split
    · exact only_pure edits
    · dsimp only
      split
      · exact only_pure _
      · exact only_bind (noFailure_lookedUp _ _ _ _ _) fun _ => only_pure _

end

end Reference

/-! ### Delimiters -/

namespace Delimiter

/-- The delimiters of the rules are written with some characters. -/
def Written (rules : List DelimiterRule) : Prop := ∀ r ∈ rules, r.opener ≠ [] ∧ r.closer ≠ []

instance decidableWritten (rules : List DelimiterRule) : Decidable (Written rules) := by
  unfold Written
  infer_instance

variable {rules : List DelimiterRule} {text : Text}

theorem nil_not_mem_tokens (hrules : Written rules) : [] ∉ tokens rules := by
  intro hnil
  have hnil' := List.mem_mergeSort.mp hnil
  rcases List.mem_append.mp hnil' with hinert | hrule
  · revert hinert
    decide
  · obtain ⟨r, hr, hdelimiter⟩ := List.mem_flatMap.mp hrule
    obtain ⟨hopener, hcloser⟩ := hrules r hr
    rcases List.mem_cons.mp hdelimiter with h | h
    · exact hopener h.symm
    · exact hcloser (List.mem_singleton.mp h).symm

theorem lt_stop_of_mem_delimiters (hrules : Written rules) {h : Hit Text}
    (hmem : h ∈ delimiters rules text) : h.start < h.stop ∧ h.stop ≤ text.length :=
  (Scan.hit_spec (advances_token (nil_not_mem_tokens hrules)) (List.mem_filter.mp hmem).1).2

theorem noFailure_take (edits : List Edit) (h : Hit Text) : NoFailure (take rules edits h) := by
  unfold take
  split
  · exact only_pure _
  · exact only_bind (only_report (by decide) _ _) fun _ => only_pure _

theorem noFailure_normalize : NoFailure (normalize rules text) := by
  refine only_bind (only_bind (only_foldlM (fun s h => ?_) _ _) fun s => ?_)
    fun _ => only_edited _ _
  · unfold pairUp
    split
    · exact noFailure_take _ _
    · split
      · exact only_pure _
      · exact only_bind (only_report (by decide) _ _) fun _ => noFailure_take _ _
  · unfold finish
    split
    · exact only_pure _
    · exact only_bind (only_report (by decide) _ _) fun _ => only_pure _

end Delimiter

/-! ### Sizing commands -/

namespace Sizing

/-- The edits are those of sizing commands that no longer wait, each of them once. -/
theorem exists_used (found : List (Hit Sized)) :
    ∀ (used : List (Hit Sized)) (s : Pairing), s.edits = used.map bare →
      ∃ used' : List (Hit Sized), (found.foldl pairUp s).edits = used'.map bare ∧
        used'.Subperm (used ++ s.waiting ++ found) := by
  induction found with
  | nil =>
    intro used s hs
    exact ⟨used, hs, by simpa using (List.sublist_append_left used s.waiting).subperm⟩
  | cons h found ih =>
    intro used s hs
    rw [List.foldl_cons]
    rcases s with ⟨waiting, edits⟩
    rcases h with ⟨start, stop, ⟨side, delimiter⟩⟩
    cases side with
    | left =>
      obtain ⟨used', hused', hsub⟩ := ih used ⟨_ :: waiting, edits⟩ hs
      refine ⟨used', hused', hsub.trans (List.Perm.subperm ?_)⟩
      simp only [List.append_assoc, List.cons_append]
      exact List.perm_middle.symm.append_left used
    | right =>
      cases waiting with
      | nil =>
        obtain ⟨used', hused', hsub⟩ := ih used ⟨[], edits⟩ hs
        exact ⟨used', hused', hsub.trans
          ((List.sublist_cons_self _ found).append_left (used ++ [])).subperm⟩
      | cons opening waiting =>
        simp only [pairUp]
        split
        · let closing : Hit Sized := ⟨start, stop, .right, delimiter⟩
          have hedits : edits ++ [bare opening, bare closing] =
              (used ++ [opening, closing]).map bare := by
            rw [List.map_append, ← hs]
            rfl
          obtain ⟨used', hused', hsub⟩ := ih _
            ⟨waiting, edits ++ [bare opening, bare closing]⟩ hedits
          refine ⟨used', hused', hsub.trans (List.Perm.subperm ?_)⟩
          simp only [List.append_assoc, List.cons_append, List.nil_append]
          exact (List.Perm.cons opening List.perm_middle.symm).append_left used
        · obtain ⟨used', hused', hsub⟩ := ih used ⟨waiting, edits⟩ hs
          refine ⟨used', hused', hsub.trans (List.Sublist.subperm ?_)⟩
          exact ((List.sublist_cons_self opening waiting).append_left used).append
            (List.sublist_cons_self _ found)

/-- The sizing commands of a text that are not escaped. -/
def found (text : Text) : List (Hit Sized) :=
  (Scan.hits sized text).filter fun h => !Scan.isEscaped text h.start

/-- **The edits of the sizing commands fit.**  Openings and closings come in pairs that may
    lie inside each other, so the edits do not stand from left to right. -/
theorem edits_stripPairs (text : Text) :
    Edit.Fit 0 text.length ((found text).foldl pairUp ⟨[], []⟩).edits := by
  obtain ⟨used, hused, hsub⟩ := exists_used (found text) [] ⟨[], []⟩ rfl
  rw [hused]
  apply Edit.Fit.of_subperm hsub
  · intro h hmem
    obtain ⟨-, hlt, hstop⟩ := Scan.hit_spec advances_sized (List.mem_filter.mp hmem).1
    exact ⟨Nat.zero_le _, hlt, hstop⟩
  · exact ((Scan.pairwise_hits sized text).filter _).imp fun hab => hab.1

theorem exists_result_stripAll (text : Text) : ∃ t, (stripAll text).result = .ok t :=
  exists_result_bind ⟨_, result_edited (edits_stripPairs text)⟩ fun _ => ⟨_, rfl⟩

theorem noFailure_stripAll (text : Text) : NoFailure (stripAll text) :=
  only_bind (only_edited _ _) fun _ => only_pure _

end Sizing

end TexMark
