/-
  TexMark/Proofs/Macro/Order.lean
  ===============================
  **The order of definitions does not matter.**  Definitions of different names that stand one
  after the other in front of a text may change places: the collection takes each of them out as a
  whole (`foldlM_of_row`), what stands behind them is read in the same way (`collectHit_congr`),
  and the passes go by the names alone (`mergeSort_of_perm`).

    * `Spans.collect_eq` — what a text that is one definition is: nothing is left of it;
    * `Alike` — two collections that have come to the same place by different definitions;
    * `agree_collect` — the same is left of both texts, and the same is found in both tables;
    * `agree_applyMacros` — the whole phase shows and reports the same.
-/
import TexMark.Proofs.Macro.Extent
import TexMark.Proofs.Macro.Shadowing

namespace TexMark

/-! ### The order of the passes -/

namespace Macro

theorem name_eq_of_expandsBefore {a b : Macro} (hab : expandsBefore a b) (hba : expandsBefore b a) :
    a.name = b.name := by
  simp only [expandsBefore, Bool.or_eq_true, Bool.and_eq_true, decide_eq_true_eq,
    beq_iff_eq] at hab hba
  rcases hab with hab | ⟨hab, hle⟩ <;> rcases hba with hba | ⟨hba, hle'⟩
  · omega
  · omega
  · omega
  · exact Text.le_antisymm hle hle'

/-- Macros of different names are expanded in one order only. -/
theorem mergeSort_of_perm {ms ms' : List Macro} (hperm : ms.Perm ms')
    (hnames : (ms.map Macro.name).Nodup) :
    ms.mergeSort expandsBefore = ms'.mergeSort expandsBefore := by
  have hsorted : ∀ ms : List Macro, (ms.mergeSort expandsBefore).Pairwise (expandsBefore · ·) :=
    List.pairwise_mergeSort (fun _ _ _ => expandsBefore_trans) expandsBefore_total
  refine List.Perm.eq_of_pairwise ?_ (hsorted ms) (hsorted ms')
    ((List.mergeSort_perm _ _).trans (hperm.trans (List.mergeSort_perm _ _).symm))
  intro a b ha hb hab hba
  exact List.inj_on_of_nodup_map hnames (List.mem_mergeSort.mp ha)
    (hperm.mem_iff.mpr (List.mem_mergeSort.mp hb)) (name_eq_of_expandsBefore hab hba)

end Macro

namespace Definition

open Noted (Agree)
open Scan (escapedBehind hitsFrom)

/-! ### Rows of definitions -/

/-- Definitions one after the other, each with the macro that it defines. -/
def row (ds : List (Text × Macro)) : Text := ds.flatMap (·.1)

/-- The edits that take a row of definitions out, from an offset on. -/
def cutsFrom (pos : Nat) : List (Text × Macro) → List Edit
  | [] => []
  | d :: ds => ⟨pos, pos + d.1.length, []⟩ :: cutsFrom (pos + d.1.length) ds

def entries (ds : List (Text × Macro)) : Table Macro := ds.map fun d => (d.2.name, d.2)

variable {ds es : List (Text × Macro)} {front front' body : Text}

theorem closed_row (hds : ∀ d ∈ ds, Spans d.1 d.2) : escapedBehind false (row ds) = false := by
  induction ds with
  | nil => rfl
  | cons d ds ih =>
    obtain ⟨hd, hds⟩ := List.forall_mem_cons.mp hds
    rw [row, List.flatMap_cons, Scan.escapedBehind_append, hd.closed]
    exact ih hds

/-- **A row of definitions is taken out**, and the collection goes on behind it. -/
theorem foldlM_of_row (hds : ∀ d ∈ ds, Spans d.1 d.2) (hfront : escapedBehind false front = false)
    {edits : List Edit} {macros : Table Macro} (hnames : (macros ++ entries ds).names.Nodup) :
    (hitsFrom head front.length front.reverse 0 (row ds ++ body)).foldlM
        (collectHit (front ++ (row ds ++ body))) ⟨front.length, edits, macros⟩ =
      (hitsFrom head (front ++ row ds).length (front ++ row ds).reverse 0 body).foldlM
        (collectHit (front ++ (row ds ++ body)))
        ⟨(front ++ row ds).length, edits ++ cutsFrom front.length ds, macros ++ entries ds⟩ := by
  induction ds generalizing front edits macros with
  | nil => simp [row, cutsFrom, entries]
  | cons d ds ih =>
    obtain ⟨hd, hds⟩ := List.forall_mem_cons.mp hds
    have hrow : row (d :: ds) = d.1 ++ row ds := rfl
    have hentries : macros ++ entries (d :: ds) = macros ++ [(d.2.name, d.2)] ++ entries ds := by
      simp [entries]
    have hnew : d.2.name ∉ macros.names := by
      intro hmem
      rw [Table.names, List.map_append] at hnames
      exact List.disjoint_of_nodup_append hnames hmem List.mem_cons_self
    have hbehind : escapedBehind false (front ++ d.1) = false := by
      rw [Scan.escapedBehind_append, hd.closed]
    rw [hentries] at hnames
    have hcuts : cutsFrom front.length (d :: ds) =
        ⟨front.length, (front ++ d.1).length, []⟩ :: cutsFrom (front ++ d.1).length ds := by
      rw [List.length_append]
      rfl
    rw [hrow, hentries, hcuts, List.append_assoc d.1,
      foldlM_of_spans hd hfront (Nat.le_refl _) hnew,
      ← List.append_assoc front d.1 (row ds ++ body), ih hds hbehind hnames]
    simp only [List.append_assoc, List.singleton_append]

/-! ### What stands behind the definitions -/

theorem hitsFrom_head (pos : Nat) (before before' : Text) (skip : Nat) (t : Text) :
    hitsFrom head pos before skip t = hitsFrom head pos before' skip t := by
  induction t generalizing pos before before' skip with
  | nil => rfl
  | cons c t ih =>
    cases skip with
    | succ skip => exact ih _ _ _ _
    | zero =>
      have hhead : head before (c :: t) = head before' (c :: t) := rfl
      simp only [hitsFrom, hhead, ih _ (c :: before) (c :: before')]

theorem drop_append_of_length_le {pos : Nat} (h : front.length ≤ pos) :
    (front ++ body).drop pos = body.drop (pos - front.length) := by
  rw [List.drop_append, List.drop_of_length_le h, List.nil_append]

theorem isEscaped_append (hfront : escapedBehind false front = false) {pos : Nat}
    (h : front.length ≤ pos) :
    Scan.isEscaped (front ++ body) pos = Scan.isEscaped body (pos - front.length) := by
  rw [Scan.isEscaped_eq, Scan.isEscaped_eq, List.take_append, List.take_of_length_le h,
    Scan.escapedBehind_append, hfront]

/-- What stands in front of a place does not matter to a definition there. -/
theorem collectHit_congr (hlength : front.length = front'.length)
    (hfront : escapedBehind false front = false) (hfront' : escapedBehind false front' = false)
    {h : Hit Head} (hstart : front.length ≤ h.start) (hstop : h.start ≤ h.stop) (s : Progress) :
    collectHit (front ++ body) s h = collectHit (front' ++ body) s h := by
  have hstart' : front'.length ≤ h.start := hlength ▸ hstart
  have hescaped : Scan.isEscaped (front ++ body) h.start =
      Scan.isEscaped (front' ++ body) h.start := by
    rw [isEscaped_append hfront hstart, isEscaped_append hfront' hstart', hlength]
  have hdrop : (front ++ body).drop h.stop = (front' ++ body).drop h.stop := by
    rw [drop_append_of_length_le (hstart.trans hstop),
      drop_append_of_length_le (hstart'.trans hstop), hlength]
  have hsize : (front ++ body).length = (front' ++ body).length := by
    rw [List.length_append, List.length_append, hlength]
  simp only [collectHit, hescaped, hdrop, hsize]

theorem splice_congr (hlength : front.length = front'.length) {start stop : Nat}
    {edits : List Edit} (h : Edit.Ordered start stop edits) (hstart : front.length ≤ start) :
    Edit.splice (front ++ body) start stop edits =
      Edit.splice (front' ++ body) start stop edits := by
  have hslice : ∀ {a b : Nat}, front.length ≤ a →
      Text.slice (front ++ body) a b = Text.slice (front' ++ body) a b := by
    intro a b ha
    have hslice : ∀ t : Text, Text.slice t a b = (t.drop a).take (b - a) :=
      fun t => List.drop_take ..
    rw [hslice, hslice, drop_append_of_length_le ha, drop_append_of_length_le (hlength ▸ ha),
      hlength]
  induction edits generalizing start with
  | nil => exact hslice hstart
  | cons e edits ih =>
    have := h.inside e List.mem_cons_self
    rw [Edit.splice, Edit.splice, hslice hstart, ih h.of_cons (by omega)]

theorem splice_cutsFrom (ds : List (Text × Macro)) (text : Text) (pos stop : Nat)
    (edits : List Edit) : Edit.splice text pos stop (cutsFrom pos ds ++ edits) =
      Edit.splice text (pos + (row ds).length) stop edits := by
  induction ds generalizing pos with
  | nil => rfl
  | cons d ds ih =>
    have hnone : Text.slice text pos pos = [] := by simp [Text.slice]
    have hlength : (row (d :: ds)).length = d.1.length + (row ds).length := List.length_append
    rw [cutsFrom, List.cons_append, Edit.splice, ih, hnone, hlength, Nat.add_assoc]
    rfl

/-! ### Two collections -/

/-- Two collections that have come to the same place behind `pos`: what they have taken out in
    front of it is different, but not what they have taken out behind it, nor what they find. -/
structure Alike (pos : Nat) (cuts cuts' : List Edit) (s s' : Progress) : Prop where
  cursor : s.cursor = s'.cursor
  edits : ∃ added, s.edits = cuts ++ added ∧ s'.edits = cuts' ++ added ∧ ∀ e ∈ added, pos ≤ e.start
  macros : ∀ name, s.macros.get? name = s'.macros.get? name

variable {pos : Nat} {cuts cuts' : List Edit} {s s' : Progress}

theorem get?_enter {macros macros' : Table Macro}
    (hget : ∀ name, macros.get? name = macros'.get? name) (head : Head) (m : Macro) (name : Text) :
    (enter head m macros).get? name = (enter head m macros').get? name := by
  unfold enter Table.has
  rw [hget m.name]
  split
  · exact hget name
  · rw [Table.get?_put, Table.get?_put, hget]

/-- **One step** reports the same in both collections, and they come to the same place. -/
theorem agree_collectHit (hs : Alike pos cuts cuts' s s') (text : Text) {h : Hit Head}
    (hstart : pos ≤ h.start) :
    Agree (Alike pos cuts cuts') (collectHit text s h) (collectHit text s' h) := by
  unfold collectHit
  rw [hs.cursor]
  split
  · exact .succeeded [] hs
  · split
    · exact (Agree.of_eq (R := Eq) (fun _ => rfl) _).bind fun _ _ _ _ _ => .succeeded [] hs
    · rename_i draft after hdraft
      refine (Agree.of_eq (R := Eq) (fun _ => rfl) _).bind ?_
      rintro m? _ - - rfl
      cases m? with
      | none => exact .succeeded [] hs
      | some m =>
        obtain ⟨added, hedits, hedits', hadded⟩ := hs.edits
        refine .succeeded [] ⟨rfl, ⟨added ++ [⟨h.start, text.length - after.length, []⟩],
          ?_, ?_, ?_⟩, get?_enter hs.macros h.value m⟩
        · rw [hedits, List.append_assoc]
        · rw [hedits', List.append_assoc]
        · exact List.forall_mem_append.mpr ⟨hadded, List.forall_mem_singleton.mpr hstart⟩

theorem length_row_of_perm (hperm : ds.Perm es) : (row ds).length = (row es).length :=
  (hperm.flatMap_right _).length_eq

theorem nodup_entries (hnames : (ds.map fun d => d.2.name).Nodup) : (entries ds).names.Nodup := by
  rwa [entries, Table.names, List.map_map]

/-- The collection of a text that begins with a row of definitions. -/
theorem collect_row (hds : ∀ d ∈ ds, Spans d.1 d.2) (hnames : (ds.map fun d => d.2.name).Nodup)
    (body : Text) :
    (Scan.hits head (row ds ++ body)).foldlM (collectHit (row ds ++ body)) ⟨0, [], []⟩ =
      (hitsFrom head (row ds).length [] 0 body).foldlM (collectHit (row ds ++ body))
        ⟨(row ds).length, cutsFrom 0 ds, entries ds⟩ := by
  rw [hitsFrom_head (row ds).length [] (row ds).reverse]
  exact @foldlM_of_row ds [] body hds rfl [] [] (nodup_entries hnames)

/-- One definition leaves nothing of its text, and its macro. -/
theorem Spans.collect_eq {d : Text} {m : Macro} (h : Spans d m) :
    collect d = pure ([], [(m.name, m)]) := by
  have hd : row [(d, m)] ++ [] = d := by simp [row]
  have hfold := @collect_row [(d, m)] (List.forall_mem_singleton.mpr h)
    (List.nodup_singleton _) []
  have hlaid : Laid d.length d.length (cutsFrom 0 [(d, m)]) := by
    have hne : d ≠ [] := h.brace_suffix.ne_nil (List.cons_ne_nil _ _)
    simpa [cutsFrom] using
      Laid.start.add (Nat.le_refl 0) (List.length_pos_of_ne_nil hne) (Nat.le_refl d.length) []
  have hsplice := splice_cutsFrom [(d, m)] d 0 d.length []
  rw [List.append_nil] at hsplice
  rw [hd] at hfold
  rw [collect, hfold, hitsFrom, List.foldlM_nil, pure_bind]
  dsimp only
  rw [hlaid.edited_eq, hsplice, pure_bind]
  simp [Edit.splice, Text.slice, row, entries]

/-- **Definitions of different names may change places.** -/
theorem agree_collect (hds : ∀ d ∈ ds, Spans d.1 d.2) (hnames : (ds.map fun d => d.2.name).Nodup)
    (hperm : ds.Perm es) (body : Text) :
    Agree (fun a b => a.1 = b.1 ∧ ∀ name, a.2.get? name = b.2.get? name)
      (collect (row ds ++ body)) (collect (row es ++ body)) := by
  have hes : ∀ d ∈ es, Spans d.1 d.2 := fun d hd => hds d (hperm.mem_iff.mpr hd)
  have hnames' : (es.map fun d => d.2.name).Nodup := (hperm.map _).nodup_iff.mp hnames
  have hlength := length_row_of_perm hperm
  have hentries : ∀ name, (entries ds).get? name = (entries es).get? name :=
    Table.get?_of_perm (nodup_entries hnames) (hperm.map _)
  have hstart : Alike (row ds).length (cutsFrom 0 ds) (cutsFrom 0 es)
      ⟨(row ds).length, cutsFrom 0 ds, entries ds⟩ ⟨(row ds).length, cutsFrom 0 es, entries es⟩ :=
    ⟨rfl, ⟨[], by simp, by simp, nofun⟩, hentries⟩
  have hfold : Agree (Alike (row ds).length (cutsFrom 0 ds) (cutsFrom 0 es))
      ((Scan.hits head (row ds ++ body)).foldlM (collectHit (row ds ++ body)) ⟨0, [], []⟩)
      ((Scan.hits head (row es ++ body)).foldlM (collectHit (row es ++ body)) ⟨0, [], []⟩) := by
    rw [collect_row hds hnames, collect_row hes hnames', ← hlength]
    refine Agree.foldlM ?_ hstart
    intro h hmem s s' hs
    have hbounds := Scan.bounds_of_mem_hitsFrom head _ _ _ _ h hmem
    rw [collectHit_congr hlength.symm (closed_row hes) (closed_row hds) (by omega) hbounds.2.1]
    exact agree_collectHit hs _ (by omega)
  refine hfold.bind ?_
  intro s s' hresult hresult' hs
  obtain ⟨added, hedits, hedits', hadded⟩ := hs.edits
  have hlaid := laid_collect hresult
  have hlaid' := laid_collect hresult'
  rw [hlaid.edited_eq, hlaid'.edited_eq, pure_bind, pure_bind]
  have hordered : Edit.Ordered (row ds).length (row ds ++ body).length added := by
    have hall := hlaid.ordered.mono (Nat.le_refl _) hlaid.within
    rw [hedits] at hall
    refine ⟨?_, (List.pairwise_append.mp hall.pairwise).2.1⟩
    intro e he
    exact ⟨hadded e he, (hall.inside e (List.mem_append_right _ he)).2⟩
  have hsize : (row ds ++ body).length = (row es ++ body).length := by
    rw [List.length_append, List.length_append, hlength]
  refine .succeeded [] ⟨?_, hs.macros⟩
  rw [hedits, hedits', splice_cutsFrom, splice_cutsFrom, Nat.zero_add, Nat.zero_add, ← hsize,
    ← hlength]
  exact splice_congr hlength hordered (Nat.le_refl _)

end Definition

/-! ### The phase -/

namespace Phase

open Definition (Spans Named row)
open Noted (Agree)

theorem expandAll_of_perm {macros macros' : Table Macro} (h : Named macros)
    (hperm : macros.Perm macros') (text : Text) :
    Macro.expandAll macros.values text = Macro.expandAll macros'.values text := by
  have hnames : macros.values.map Macro.name = macros.names := by
    rw [Table.values, List.map_map]
    exact List.map_congr_left fun e he => h.own e he
  have hsorted := Macro.mergeSort_of_perm (hperm.map Prod.snd) (hnames ▸ h.nodup)
  rw [Macro.expandAll, Macro.expandAll, Table.values, Table.values, hsorted]

/-- **The order of definitions does not matter.**  Texts that are one definition each, of different
    names, may change places in front of any text: the phase shows and reports the same, and comes
    to a table with the same entries. -/
theorem agree_applyMacros {ds es : List (Text × Macro)} (hds : ∀ d ∈ ds, Spans d.1 d.2)
    (hnames : (ds.map fun d => d.2.name).Nodup) (hperm : ds.Perm es) {state : State}
    (hstate : Named state.macros) (body : Text) :
    Agree (fun a b => a.1 = b.1 ∧ a.2.macros.Perm b.2.macros ∧
        (∀ name, a.2.macros.get? name = b.2.macros.get? name) ∧
        a.2 = { state with macros := a.2.macros } ∧ b.2 = { state with macros := b.2.macros })
      (applyMacros (row ds ++ body) state) (applyMacros (row es ++ body) state) := by
  refine (Definition.agree_collect hds hnames hperm body).bind ?_
  rintro ⟨rest, defined⟩ ⟨rest', defined'⟩ hcollect hcollect' ⟨rfl, hget⟩
  have hdefined := Definition.named_collect hcollect
  have hdefined' := Definition.named_collect hcollect'
  have hmacros := hstate.merge hdefined
  have hmacros' := hstate.merge hdefined'
  have hmerged : ∀ name, (state.macros.merge defined).get? name =
      (state.macros.merge defined').get? name := by
    intro name
    rw [Table.get?_merge _ hdefined.nodup, Table.get?_merge _ hdefined'.nodup, hget]
  have htables := Table.perm_of_get? hmacros.nodup hmacros'.nodup hmerged
  dsimp only
  rw [expandAll_of_perm hmacros htables]
  refine (Agree.of_eq (R := Eq) (fun _ => rfl) _).bind ?_
  rintro expanded _ - - rfl
  refine (Agree.of_eq (R := Eq) (fun _ => rfl) _).bind ?_
  rintro shown _ - - rfl
  exact .succeeded [] ⟨rfl, htables, hmerged, rfl, rfl⟩

/-- The body of one macro may invoke the other. -/
theorem agree_applyMacros_pair :
    let unit : Text × Macro := ("\\newcommand" ++ Text.braced "\\e" ++ "{1}", ⟨"e", 0, "1", none⟩)
    let next : Text × Macro := ("\\def\\s#1" ++ Text.braced "#1+\\e", ⟨"s", 1, "#1+\\e", none⟩)
    (Spans unit.1 unit.2 ∧ Spans next.1 next.2) ∧ unit.2.name ≠ next.2.name ∧
      Agree (fun a b => a.1 = b.1 ∧ ∀ name, a.2.macros.get? name = b.2.macros.get? name)
        (applyMacros (unit.1 ++ next.1 ++ "\\s{x}") .empty)
        (applyMacros (next.1 ++ unit.1 ++ "\\s{x}") .empty) := by
  intro unit next
  have hunit : Spans unit.1 unit.2 := ⟨⟨0, 11, .newcommand⟩, rfl, rfl⟩
  have hnext : Spans next.1 next.2 := ⟨⟨0, 4, .def_⟩, rfl, rfl⟩
  have hempty : Named State.empty.macros := ⟨nofun, nofun, List.nodup_nil⟩
  have hboth : ∀ d ∈ [unit, next], Spans d.1 d.2 := by
    simp only [List.forall_mem_cons]
    exact ⟨hunit, hnext, nofun⟩
  refine ⟨⟨hunit, hnext⟩, by decide, ?_⟩
  refine (agree_applyMacros hboth (by decide) (List.Perm.swap next unit []) hempty
    "\\s{x}").mono ?_
  rintro a b ⟨hshown, -, hget, -⟩
  exact ⟨hshown, hget⟩

end Phase

end TexMark
