/-
  TexMark/Proofs/Edit/Places.lean
  ===============================
  **Edits place by place.**  Edits are applied in the order of their starts, and those with one
  start in the order in which they were given.  So what comes out can be told without sorting:
  at each place of the window stand the replacements of the edits that begin there, and then the
  character there, if no edit takes it away (`written`).  Edits may be empty here, so that
  several of them can stand at one place.

    * `applyFrom_eq_ok_iff` — edits in order are applied just when they are `Placed`, and then
      their splice comes out;
    * `filter_inOrder` — sorting is stable, and so it can be done behind a choice of edits;
    * `splice_eq_written` — the splice is what is written place by place;
    * `splice_append` — edits in front of an offset and edits behind it can be applied apart.
-/
import TexMark.Proofs.Edits
import Mathlib.Data.List.Chain
import Mathlib.Data.List.Nodup

namespace TexMark.Edit

variable {text : Text} {start stop middle : Nat} {e : Edit} {edits more front back : List Edit}

/-! ### Stable order -/

/-- Lists in order that hold, for each start, the same edits in the same order. -/
theorem eq_of_filter_eq (hedits : edits.Pairwise fun a b => a.start ≤ b.start)
    (hmore : more.Pairwise fun a b => a.start ≤ b.start)
    (h : ∀ pos, edits.filter (fun e => e.start == pos) = more.filter fun e => e.start == pos) :
    edits = more := by
  induction edits generalizing more with
  | nil =>
    have hnone : ∀ e, e ∉ more := by
      intro e he
      have hclass : e ∈ more.filter fun d => d.start == e.start :=
        List.mem_filter.mpr ⟨he, by simp⟩
      rw [← h e.start] at hclass
      cases hclass
    exact (List.eq_nil_iff_forall_not_mem.mpr hnone).symm
  | cons a edits ih =>
    have hmem : ∀ e, e ∈ a :: edits ↔ e ∈ more := by
      intro e
      simpa using congrArg (e ∈ ·) (h e.start)
    cases more with
    | nil => exact absurd ((hmem a).mp List.mem_cons_self) List.not_mem_nil
    | cons b more =>
      obtain ⟨ha, hedits'⟩ := List.pairwise_cons.mp hedits
      obtain ⟨hb, hmore'⟩ := List.pairwise_cons.mp hmore
      -- the first edits have one start, and so each is the first of its class
      have hab : a.start ≤ b.start := by
        rcases List.mem_cons.mp ((hmem b).mpr List.mem_cons_self) with hsame | hlater
        · rw [hsame]
        · exact ha b hlater
      have hba : b.start ≤ a.start := by
        rcases List.mem_cons.mp ((hmem a).mp List.mem_cons_self) with hsame | hlater
        · rw [hsame]
        · exact hb a hlater
      have hfirst := h a.start
      rw [List.filter_cons_of_pos (by simp),
        List.filter_cons_of_pos (by simpa using Nat.le_antisymm hba hab)] at hfirst
      obtain ⟨rfl, -⟩ := List.cons.inj hfirst
      refine congrArg _ (ih hedits' hmore' fun pos => ?_)
      have hpos := h pos
      simp only [List.filter_cons] at hpos
      split at hpos
      · exact (List.cons.inj hpos).2
      · exact hpos

/-- **Sorting is stable**: edits with one start keep their order. -/
theorem filter_start_inOrder (edits : List Edit) (pos : Nat) :
    (inOrder edits).filter (fun e => e.start == pos) = edits.filter fun e => e.start == pos := by
  have hsame : (edits.filter fun e => e.start == pos).Pairwise
      fun a b => decide (a.start ≤ b.start) := by
    refine List.pairwise_of_forall_mem_list fun a ha b hb => ?_
    have ha := beq_iff_eq.mp (List.mem_filter.mp ha).2
    have hb := beq_iff_eq.mp (List.mem_filter.mp hb).2
    exact decide_eq_true (by omega)
  have hsub : (edits.filter fun e => e.start == pos).Sublist (inOrder edits) :=
    List.sublist_mergeSort
      (fun a b c hab hbc => by
        simp only [decide_eq_true_eq] at *
        omega)
      (fun a b => by
        simp only [Bool.or_eq_true, decide_eq_true_eq]
        omega)
      hsame List.filter_sublist
  have hclass := hsub.filter fun e => e.start == pos
  rw [List.filter_filter] at hclass
  simp only [Bool.and_self] at hclass
  exact (hclass.eq_of_length ((inOrder_perm edits).filter _).length_eq.symm).symm

/-- Some of the edits are sorted as all of them are. -/
theorem filter_inOrder (chosen : Edit → Bool) (edits : List Edit) :
    inOrder (edits.filter chosen) = (inOrder edits).filter chosen := by
  refine eq_of_filter_eq (pairwise_inOrder _) ((pairwise_inOrder edits).filter _) fun pos => ?_
  rw [filter_start_inOrder, List.filter_filter, List.filter_filter]
  simp only [Bool.and_comm _ (chosen _)]
  rw [← List.filter_filter, ← List.filter_filter, filter_start_inOrder]

/-- Edits whose starts are distinct are sorted alike, in whatever order they are given. -/
theorem inOrder_of_nodup (hperm : more.Perm edits) (hstarts : (edits.map Edit.start).Nodup) :
    inOrder more = inOrder edits := by
  refine List.Perm.eq_of_pairwise ?_ (pairwise_inOrder more) (pairwise_inOrder edits)
    ((inOrder_perm more).trans (hperm.trans (inOrder_perm edits).symm))
  intro a b ha hb hab hba
  have ha : a ∈ edits := hperm.mem_iff.mp ((inOrder_perm more).mem_iff.mp ha)
  have hb : b ∈ edits := (inOrder_perm edits).mem_iff.mp hb
  exact List.inj_on_of_nodup_map hstarts ha hb (Nat.le_antisymm hab hba)

/-! ### Places -/

/-- Edits that stand in order are **placed** in a window: none of them leaves it, and none begins
    in front of the end of the one before it. -/
structure Placed (start stop : Nat) (edits : List Edit) : Prop where
  inside : ∀ e ∈ edits, start ≤ e.start ∧ e.stop ≤ stop
  chain : edits.IsChain fun a b => a.stop ≤ b.start

/-- Edits that may be applied one after the other: each has its ends in order, and they are sorted
    by their starts. -/
structure Lined (edits : List Edit) : Prop where
  formed : ∀ e ∈ edits, e.start ≤ e.stop
  sorted : edits.Pairwise fun a b => a.start ≤ b.start

theorem lined_inOrder (hedits : ∀ e ∈ edits, e.start ≤ e.stop) : Lined (inOrder edits) :=
  ⟨fun e he => hedits e ((inOrder_perm edits).mem_iff.mp he), pairwise_inOrder edits⟩

theorem Lined.of_cons (h : Lined (e :: edits)) : Lined edits :=
  ⟨fun d hd => h.formed d (List.mem_cons_of_mem e hd), h.sorted.of_cons⟩

/-- The first edit, and those behind its end. -/
theorem Lined.placed_cons_iff (h : Lined (e :: edits)) : Placed start stop (e :: edits) ↔
    start ≤ e.start ∧ e.stop ≤ stop ∧ Placed e.stop stop edits := by
  obtain ⟨hbehind, hsorted⟩ := List.pairwise_cons.mp h.sorted
  have he := h.formed e List.mem_cons_self
  constructor
  · rintro ⟨hinside, hchain⟩
    obtain ⟨hfirst, hinside⟩ := List.forall_mem_cons.mp hinside
    refine ⟨hfirst.1, hfirst.2, fun d hd => ⟨?_, (hinside d hd).2⟩, hchain.tail⟩
    -- the next edit begins behind the end, and all others behind the next one
    cases edits with
    | nil => cases hd
    | cons f edits =>
      have hnext := (List.isChain_cons_cons.mp hchain).1
      rcases List.mem_cons.mp hd with rfl | hd
      · exact hnext
      · exact hnext.trans ((List.pairwise_cons.mp hsorted).1 d hd)
  · rintro ⟨hstart, hstop, hinside, hchain⟩
    refine ⟨List.forall_mem_cons.mpr ⟨⟨hstart, hstop⟩, fun d hd => ?_⟩, ?_⟩
    · have := hinside d hd
      omega
    · cases edits with
      | nil => exact .singleton e
      | cons f edits =>
        exact List.isChain_cons_cons.mpr ⟨(hinside f List.mem_cons_self).1, hchain⟩

/-- **Edits in order are applied** just when they are placed in the window. -/
theorem Lined.applyFrom_eq_ok_iff (text : Text) (h : Lined edits) {out : Text} :
    applyFrom text stop start edits = .ok out ↔
      Placed start stop edits ∧ out = splice text start stop edits := by
  induction edits generalizing start out with
  | nil =>
    have hplaced : Placed start stop [] := ⟨nofun, .nil⟩
    simp [applyFrom, splice, hplaced, eq_comm]
  | cons e edits ih =>
    rw [applyFrom, h.placed_cons_iff]
    split
    · rename_i hmisfit
      constructor
      · intro hok
        cases hok
      · rintro ⟨⟨hstart, hstop, -⟩, -⟩
        omega
    · rename_i hfits
      have hstart : start ≤ e.start := by omega
      have hstop : e.stop ≤ stop := by omega
      cases hrest : applyFrom text stop e.stop edits with
      | error m =>
        have hmisplaced : ¬ Placed e.stop stop edits := by
          intro hplaced
          rw [(ih h.of_cons).mpr ⟨hplaced, rfl⟩] at hrest
          cases hrest
        simp [Except.map, hmisplaced]
      | ok rest =>
        obtain ⟨hplaced, rfl⟩ := (ih h.of_cons).mp hrest
        simp [Except.map, splice, hstart, hstop, hplaced, eq_comm]

/-! ### What is written at a place -/

/-- What is **written at** a place: the replacements of the edits that begin there, and then the
    character of the window, if no edit takes it away. -/
def writtenAt (text : Text) (stop : Nat) (edits : List Edit) (pos : Nat) : Text :=
  (edits.filter fun e => e.start == pos).flatMap Edit.replacement ++
    if pos < stop ∧ ∀ e ∈ edits, pos < e.start ∨ e.stop ≤ pos then text[pos]?.toList else []

/-- The window with each edit's range replaced and all other characters kept, place by place. -/
def written (text : Text) (start stop : Nat) (edits : List Edit) : Text :=
  (List.range' start (stop + 1 - start)).flatMap (writtenAt text stop edits)

section

variable {pos : Nat}

theorem writtenAt_of_before (text : Text) (hpos : pos < stop) (h : ∀ e ∈ edits, pos < e.start) :
    writtenAt text stop edits pos = text[pos]?.toList := by
  have hnone : edits.filter (fun e => e.start == pos) = [] := by
    rw [List.filter_eq_nil_iff]
    intro e he
    have := h e he
    simp only [beq_iff_eq]
    omega
  rw [writtenAt, hnone, if_pos ⟨hpos, fun e he => .inl (h e he)⟩]
  rfl

/-- Inside of what an edit takes away nothing is written. -/
theorem writtenAt_of_inside (text : Text) (hstart : e.start < pos) (hstop : pos < e.stop)
    (h : ∀ d ∈ edits, e.stop ≤ d.start) : writtenAt text stop (e :: edits) pos = [] := by
  have hnone : (e :: edits).filter (fun e => e.start == pos) = [] := by
    refine List.filter_eq_nil_iff.mpr (List.forall_mem_cons.mpr ⟨by simpa using hstart.ne, ?_⟩)
    intro d hd
    have := h d hd
    simp only [beq_iff_eq]
    omega
  rw [writtenAt, hnone, if_neg]
  · rfl
  · rintro ⟨-, hkept⟩
    have := hkept e List.mem_cons_self
    omega

theorem writtenAt_cons_of_behind (text : Text) (hstart : e.start < pos) (hstop : e.stop ≤ pos) :
    writtenAt text stop (e :: edits) pos = writtenAt text stop edits pos := by
  have hother : (e :: edits).filter (fun d => d.start == pos) =
      edits.filter fun d => d.start == pos :=
    List.filter_cons_of_neg (by simpa using hstart.ne)
  simp only [writtenAt, hother, List.forall_mem_cons, hstop, or_true, true_and]

end

theorem slice_eq_flatMap {text : Text} (start size : Nat) (h : start + size ≤ text.length) :
    Text.slice text start (start + size) =
      (List.range' start size).flatMap fun pos => text[pos]?.toList := by
  induction size generalizing start with
  | zero => simp [Text.slice]
  | succ size ih =>
    have hlt : start < text.length := by omega
    rw [Text.slice, List.drop_take, Nat.add_sub_cancel_left, List.drop_eq_getElem_cons hlt,
      List.take_succ_cons, List.range'_succ, List.flatMap_cons, ← ih (start + 1) (by omega),
      Text.slice, List.drop_take, Nat.add_sub_cancel_left, List.getElem?_eq_getElem hlt]
    rfl

/-- The characters in front of all edits are kept. -/
theorem written_eq_slice_append (hstart : start ≤ middle) (hmiddle : middle ≤ stop)
    (hsize : stop ≤ text.length) (h : ∀ e ∈ edits, middle ≤ e.start) :
    written text start stop edits =
      Text.slice text start middle ++ written text middle stop edits := by
  have hsplit : List.range' start (stop + 1 - start) =
      List.range' start (middle - start) ++ List.range' middle (stop + 1 - middle) := by
    have happend := List.range'_append_1 (s := start) (m := middle - start)
      (n := stop + 1 - middle)
    rw [Nat.add_sub_cancel' hstart] at happend
    rw [happend]
    congr 1
    omega
  have hfront : (List.range' start (middle - start)).flatMap (writtenAt text stop edits) =
      Text.slice text start middle := by
    have hle : start + (middle - start) ≤ text.length := by omega
    have hslice := slice_eq_flatMap start (middle - start) hle
    rw [Nat.add_sub_cancel' hstart] at hslice
    rw [hslice]
    refine List.flatMap_congr fun pos hpos => writtenAt_of_before text ?_ fun e he => ?_
    · have := List.mem_range'_1.mp hpos
      omega
    · have := List.mem_range'_1.mp hpos
      have := h e he
      omega
  rw [written, hsplit, List.flatMap_append, hfront]
  rfl

/-- An edit is written, and then what stands behind it. -/
theorem written_cons (text : Text) (he : e.start ≤ e.stop) (hstop : e.stop ≤ stop)
    (h : ∀ d ∈ edits, e.stop ≤ d.start) : written text e.start stop (e :: edits) =
      e.replacement ++ written text e.stop stop edits := by
  have hfirst : stop + 1 - e.start = stop - e.start + 1 := by omega
  rcases Nat.lt_or_eq_of_le he with hlt | heq
  · -- the edit takes something away
    have hnone : edits.filter (fun d => d.start == e.start) = [] := by
      rw [List.filter_eq_nil_iff]
      intro d hd
      have := h d hd
      simp only [beq_iff_eq]
      omega
    have hat : writtenAt text stop (e :: edits) e.start = e.replacement := by
      rw [writtenAt, List.filter_cons_of_pos (by simp), hnone, if_neg]
      · simp
      · rintro ⟨-, hkept⟩
        have := hkept e List.mem_cons_self
        omega
    have hsplit : List.range' (e.start + 1) (stop - e.start) =
        List.range' (e.start + 1) (e.stop - (e.start + 1)) ++
          List.range' e.stop (stop + 1 - e.stop) := by
      have happend := List.range'_append_1 (s := e.start + 1) (m := e.stop - (e.start + 1))
        (n := stop + 1 - e.stop)
      rw [Nat.add_sub_cancel' hlt] at happend
      rw [happend]
      congr 1
      omega
    have hinside : (List.range' (e.start + 1) (e.stop - (e.start + 1))).flatMap
        (writtenAt text stop (e :: edits)) = [] := by
      rw [List.flatMap_eq_nil_iff]
      intro pos hpos
      have := List.mem_range'_1.mp hpos
      exact writtenAt_of_inside text (by omega) (by omega) h
    rw [written, hfirst, List.range'_succ, List.flatMap_cons, hat, hsplit, List.flatMap_append,
      hinside, List.nil_append, written]
    congr 1
    refine List.flatMap_congr fun pos hpos => ?_
    have := List.mem_range'_1.mp hpos
    exact writtenAt_cons_of_behind text (by omega) (by omega)
  · -- the edit is empty, and others may follow at its place
    have hat : writtenAt text stop (e :: edits) e.start =
        e.replacement ++ writtenAt text stop edits e.start := by
      rw [writtenAt, List.filter_cons_of_pos (by simp), List.flatMap_cons, List.append_assoc]
      simp only [writtenAt, List.forall_mem_cons, heq.symm, Nat.le_refl, or_true, true_and]
    rw [written, written, ← heq, hfirst, List.range'_succ, List.flatMap_cons, List.flatMap_cons,
      hat, List.append_assoc]
    congr 2
    refine List.flatMap_congr fun pos hpos => ?_
    have := List.mem_range'_1.mp hpos
    exact writtenAt_cons_of_behind text (by omega) (by omega)

/-- **The splice is what is written place by place.** -/
theorem Lined.splice_eq_written (h : Lined edits) (hplaced : Placed start stop edits)
    (hstart : start ≤ stop) (hsize : stop ≤ text.length) :
    splice text start stop edits = written text start stop edits := by
  induction edits generalizing start with
  | nil =>
    have hend : written text stop stop [] = [] := by simp [written, writtenAt]
    rw [written_eq_slice_append hstart (Nat.le_refl _) hsize (by simp), hend, List.append_nil]
    rfl
  | cons e edits ih =>
    obtain ⟨hbefore, hstop, hrest⟩ := h.placed_cons_iff.mp hplaced
    have he := h.formed e List.mem_cons_self
    have hbehind : ∀ d ∈ e :: edits, e.start ≤ d.start :=
      List.forall_mem_cons.mpr ⟨Nat.le_refl _, (List.pairwise_cons.mp h.sorted).1⟩
    rw [written_eq_slice_append hbefore (he.trans hstop) hsize hbehind,
      written_cons text he hstop fun d hd => (hrest.inside d hd).1, ← ih h.of_cons hrest hstop,
      splice, List.append_assoc]

/-! ### Two halves -/

/-- Where the edits are divided, each half is placed in its part of the window. -/
theorem Placed.halves (h : Placed start stop (front ++ back))
    (hfront : ∀ e ∈ front, e.stop ≤ middle) (hback : ∀ e ∈ back, middle ≤ e.start) :
    Placed start middle front ∧ Placed middle stop back := by
  have hinside := List.forall_mem_append.mp h.inside
  exact ⟨⟨fun e he => ⟨(hinside.1 e he).1, hfront e he⟩, h.chain.left_of_append⟩,
    ⟨fun e he => ⟨hback e he, (hinside.2 e he).2⟩, h.chain.right_of_append⟩⟩

/-- **Edits in front of an offset and behind it** can be applied apart. -/
theorem splice_append (hstart : start ≤ middle) (hmiddle : middle ≤ stop)
    (hsize : stop ≤ text.length) (hfront : ∀ e ∈ front, e.stop ≤ middle)
    (hback : ∀ e ∈ back, middle ≤ e.start ∧ e.start ≤ stop) :
    splice text start stop (front ++ back) =
      splice text start middle front ++ splice text middle stop back := by
  induction front generalizing start with
  | nil =>
    cases back with
    | nil => exact (Text.slice_append_slice text hstart hmiddle hsize).symm
    | cons e back =>
      obtain ⟨he, hle⟩ := hback e List.mem_cons_self
      rw [List.nil_append, splice, splice, splice,
        ← Text.slice_append_slice text hstart he (hle.trans hsize)]
      simp only [List.append_assoc]
  | cons e front ih =>
    obtain ⟨he, hfront⟩ := List.forall_mem_cons.mp hfront
    rw [List.cons_append, splice, splice, ih he hfront]
    simp only [List.append_assoc]

/-- A choice that goes on to the left divides the edits without changing their order. -/
theorem inOrder_divided {chosen : Edit → Bool}
    (h : (inOrder edits).Pairwise fun a b => chosen b → chosen a) :
    inOrder edits = inOrder (edits.filter chosen) ++ inOrder (edits.filter fun e => !chosen e) := by
  rw [filter_inOrder, filter_inOrder]
  generalize inOrder edits = sorted at h
  induction sorted with
  | nil => rfl
  | cons e sorted ih =>
    obtain ⟨hfirst, hrest⟩ := List.pairwise_cons.mp h
    cases he : chosen e with
    | true => simpa [he] using ih hrest
    | false =>
      have hnone : ∀ d ∈ sorted, chosen d = false := by
        intro d hd
        by_contra hd'
        rw [hfirst d hd (by simpa using hd')] at he
        cases he
      have hleft : sorted.filter chosen = [] := by simpa using hnone
      have hright : sorted.filter (fun d => !chosen d) = sorted := by simpa using hnone
      simp [he, hleft, hright]

/-- Does an edit belong to the front one of two halves?  `early` says so of the empty edits at
    their border. -/
def inFront (early : Bool) (middle : Nat) (e : Edit) : Bool :=
  if early then e.stop ≤ middle else e.start < middle

/-- No edit that leaves an offset alone lies on both sides of it. -/
theorem of_inFront {early : Bool} (hcross : ¬ (e.start < middle ∧ middle < e.stop)) :
    (inFront early middle e → e.stop ≤ middle) ∧ (¬ inFront early middle e → middle ≤ e.start) := by
  cases early <;> simp only [inFront, Bool.false_eq_true, if_true, if_false, decide_eq_true_eq] <;>
    omega

theorem Lined.pairwise_inFront (h : Lined edits) (hplaced : Placed start stop edits) (early : Bool)
    (middle : Nat) : edits.Pairwise fun a b => inFront early middle b → inFront early middle a := by
  induction edits generalizing start with
  | nil => exact .nil
  | cons e edits ih =>
    obtain ⟨-, -, hrest⟩ := h.placed_cons_iff.mp hplaced
    refine List.pairwise_cons.mpr ⟨fun d hd => ?_, ih h.of_cons hrest⟩
    have := (hrest.inside d hd).1
    have := h.formed e List.mem_cons_self
    have := h.of_cons.formed d hd
    cases early <;>
      simp only [inFront, Bool.false_eq_true, if_true, if_false, decide_eq_true_eq] <;> omega

/-! ### What is applied -/

/-- An edit of a list in order is **misplaced**: it begins in front of the window or in front of
    the end of its predecessor, or it ends behind the window. -/
def Misplaced (start stop : Nat) (edits : List Edit) (e : Edit) : Prop :=
  e.start < start ∨ stop < e.stop ∨ ∃ d, [d, e] <:+: edits ∧ e.start < d.stop

theorem not_placed_iff : ¬ Placed start stop edits ↔ ∃ e ∈ edits, Misplaced start stop edits e := by
  constructor
  · intro h
    by_contra hnone
    push Not at hnone
    refine h ⟨fun e he => ?_, List.isChain_iff_forall_rel_of_append_cons_cons.mpr ?_⟩
    · have := not_or.mp (hnone e he)
      have := not_or.mp this.2
      omega
    · rintro d e u v rfl
      have hinfix : [d, e] <:+: u ++ d :: e :: v := ⟨u, v, by simp⟩
      by_contra hlt
      exact hnone e (by simp) (.inr (.inr ⟨d, hinfix, by omega⟩))
  · rintro ⟨e, he, hmisplaced⟩ ⟨hinside, hchain⟩
    have := hinside e he
    rcases hmisplaced with hstart | hstop | ⟨d, ⟨u, v, rfl⟩, hlt⟩
    · omega
    · omega
    · have hsplit : u ++ [d, e] ++ v = u ++ d :: e :: v := by simp
      have := List.isChain_iff_forall_rel_of_append_cons_cons.mp hchain hsplit
      omega

/-- What is written at the places of a window does not depend on the order of the edits, but for
    those at one place. -/
theorem written_inOrder (text : Text) (start stop : Nat) (edits : List Edit) :
    written text start stop (inOrder edits) = written text start stop edits := by
  refine List.flatMap_congr fun pos _ => ?_
  simp only [writtenAt, filter_start_inOrder, (inOrder_perm edits).mem_iff]

theorem applyWithin_eq_ok_iff (hwindow : start ≤ stop) (hsize : stop ≤ text.length)
    (hedits : ∀ e ∈ edits, e.start ≤ e.stop) {out : Text} :
    applyWithin text start stop edits = .ok out ↔
      Placed start stop (inOrder edits) ∧ out = written text start stop edits := by
  have hlined := lined_inOrder hedits
  rw [applyWithin, hlined.applyFrom_eq_ok_iff]
  refine and_congr_right fun hplaced => ?_
  rw [hlined.splice_eq_written hplaced hwindow hsize, written_inOrder]

/-- **Edits are applied exactly.**  For every window of every text, and all edits whose ends are
    in order:

    * the edits are refused just when one of them, in their order, is misplaced;
    * otherwise the window comes out with each range replaced and all other characters kept, and
      at every offset that no edit crosses it can be cut into the results for the two halves, to
      either of which the empty edits at the offset may go;
    * edits whose starts are distinct give the same in every order. -/
theorem written_of_applyWithin (text : Text) {start stop : Nat} (hwindow : start ≤ stop)
    (hsize : stop ≤ text.length) {edits : List Edit} (hedits : ∀ e ∈ edits, e.start ≤ e.stop) :
    ((∃ m, applyWithin text start stop edits = .error m) ↔
      ∃ e ∈ inOrder edits, Misplaced start stop (inOrder edits) e) ∧
    (∀ out, applyWithin text start stop edits = .ok out →
      out = written text start stop edits ∧
      ∀ middle, start ≤ middle → middle ≤ stop →
        (∀ e ∈ edits, ¬ (e.start < middle ∧ middle < e.stop)) → ∀ early, ∃ u v,
          applyWithin text start middle (edits.filter (inFront early middle)) = .ok u ∧
          applyWithin text middle stop (edits.filter fun e => !inFront early middle e) = .ok v ∧
          out = u ++ v) ∧
    ∀ more, more.Perm edits → (edits.map Edit.start).Nodup →
      applyWithin text start stop more = applyWithin text start stop edits := by
  have hlined := lined_inOrder hedits
  refine ⟨?_, ?_, ?_⟩
  · rw [← not_placed_iff]
    constructor
    · rintro ⟨m, hm⟩ hplaced
      rw [(applyWithin_eq_ok_iff hwindow hsize hedits).mpr ⟨hplaced, rfl⟩] at hm
      cases hm
    · intro hplaced
      cases hresult : applyWithin text start stop edits with
      | error m => exact ⟨m, rfl⟩
      | ok out => exact absurd ((applyWithin_eq_ok_iff hwindow hsize hedits).mp hresult).1 hplaced
  · intro out hout
    obtain ⟨hplaced, hwritten⟩ := (applyWithin_eq_ok_iff hwindow hsize hedits).mp hout
    refine ⟨hwritten, ?_⟩
    intro middle hstart hstop hcross early
    have hdivided := inOrder_divided (hlined.pairwise_inFront hplaced early middle)
    rw [applyWithin, hlined.applyFrom_eq_ok_iff] at hout
    rw [hdivided] at hplaced hout
    have hfront : ∀ e ∈ inOrder (edits.filter (inFront early middle)), e.stop ≤ middle := by
      intro e he
      obtain ⟨he, hchosen⟩ := List.mem_filter.mp ((inOrder_perm _).mem_iff.mp he)
      exact (of_inFront (hcross e he)).1 hchosen
    have hback : ∀ e ∈ inOrder (edits.filter fun e => !inFront early middle e),
        middle ≤ e.start ∧ e.start ≤ stop := by
      intro e hmem
      obtain ⟨he, hchosen⟩ := List.mem_filter.mp ((inOrder_perm _).mem_iff.mp hmem)
      refine ⟨(of_inFront (hcross e he)).2 (by simpa using hchosen), ?_⟩
      exact (hedits e he).trans (hplaced.inside e (List.mem_append_right _ hmem)).2
    obtain ⟨hleft, hright⟩ := hplaced.halves hfront fun e he => (hback e he).1
    have hlinedOf : ∀ chosen : Edit → Bool, Lined (inOrder (edits.filter chosen)) :=
      fun chosen => lined_inOrder fun e he => hedits e (List.mem_filter.mp he).1
    refine ⟨_, _, (hlinedOf _).applyFrom_eq_ok_iff text |>.mpr ⟨hleft, rfl⟩,
      (hlinedOf _).applyFrom_eq_ok_iff text |>.mpr ⟨hright, rfl⟩, ?_⟩
    rw [hout.2, splice_append hstart hstop hsize hfront hback]
  · intro more hperm hstarts
    rw [applyWithin, inOrder_of_nodup hperm hstarts]
    rfl

/-- Edits at both ends of a window and inside of it. -/
def someEdits : List Edit := [⟨1, 1, "x"⟩, ⟨2, 4, "yz"⟩, ⟨5, 5, "!"⟩]

theorem written_of_applyWithin_window :
    applyWithin "0123456" 1 5 someEdits = .ok "x1yz4!" ∧
      written "0123456" 1 5 someEdits = "x1yz4!" ∧
      applyWithin "0123456" 1 5 someEdits.reverse = .ok "x1yz4!" ∧
      ∃ u v, applyWithin "0123456" 1 4 [⟨1, 1, "x"⟩, ⟨2, 4, "yz"⟩] = .ok u ∧
        applyWithin "0123456" 4 5 [⟨5, 5, "!"⟩] = .ok v ∧ ("x1yz4!" : Text) = u ++ v := by
  have hsorted : inOrder someEdits = someEdits := List.mergeSort_of_pairwise (by decide)
  have hout : applyWithin "0123456" 1 5 someEdits = .ok "x1yz4!" := by
    rw [applyWithin, hsorted]
    rfl
  have hedits : ∀ e ∈ someEdits, e.start ≤ e.stop := by decide
  obtain ⟨-, hresult, horder⟩ := written_of_applyWithin "0123456"
    (by decide : 1 ≤ 5) (by decide) hedits
  obtain ⟨hwritten, hhalves⟩ := hresult _ hout
  refine ⟨hout, hwritten.symm, ?_, ?_⟩
  · rw [horder someEdits.reverse (List.reverse_perm _) (by decide), hout]
  · exact hhalves 4 (by decide) (by decide) (by decide) true

end TexMark.Edit
