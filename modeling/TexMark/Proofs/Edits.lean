/-
  TexMark/Proofs/Edits.lean
  =========================
  **Edits that fit into a window.** A pass collects its edits without looking back, and
  `Edit.applyWithin` refuses edits that overlap or leave their window.  Here stands the
  condition under which nothing is refused (`Edit.Fit`), and what is written then:

    * `Edit.splice` copies the text between the edits and puts each replacement in its
      place, without asking whether the edits fit;
    * `applyWithin_eq_splice` — edits that fit are applied, and the result is the splice of
      the edits in their order;
    * `Edit.Ordered` — edits that stand from left to right already, as most passes find
      them; they are built up at the end (`Ordered.concat`) and joined (`Ordered.append`);
    * `splice_cut` — edits that put nothing in leave the characters outside of their ranges;
    * `eq_nil_of_splice_eq` — edits that take away more of a character than they put in change
      the text.
-/
import TexMark.Diagnostic
import Mathlib.Data.List.Pairwise
import Mathlib.Data.List.Perm.Subperm

namespace TexMark

/-- Ranges that lie behind each other are **apart**, whichever of two comes first. -/
theorem apart_of_pairwise {α : Type} {start stop : α → Nat} {l : List α}
    (h : l.Pairwise fun a b => stop a ≤ start b) {a b : α} (ha : a ∈ l) (hb : b ∈ l) (hne : a ≠ b) :
    stop a ≤ start b ∨ stop b ≤ start a := by
  have hapart : l.Pairwise fun a b => stop a ≤ start b ∨ stop b ≤ start a := h.imp Or.inl
  have : Std.Symm fun a b : α => stop a ≤ start b ∨ stop b ≤ start a := ⟨fun _ _ => Or.symm⟩
  exact hapart.forall ha hb hne

namespace Edit

/-- The edits **fit** into a window: each takes away some of its characters, and no two of
    them overlap. -/
structure Fit (start stop : Nat) (edits : List Edit) : Prop where
  inside : ∀ e ∈ edits, start ≤ e.start ∧ e.start < e.stop ∧ e.stop ≤ stop
  apart : edits.Pairwise fun a b => a.stop ≤ b.start ∨ b.stop ≤ a.start

/-- The edits fit into a window and stand from left to right. -/
structure Ordered (start stop : Nat) (edits : List Edit) : Prop where
  inside : ∀ e ∈ edits, start ≤ e.start ∧ e.start < e.stop ∧ e.stop ≤ stop
  pairwise : edits.Pairwise fun a b => a.stop ≤ b.start

/-- The text from `start` up to `stop` with the replacement of each edit in the place of
    what the edit takes away. -/
def splice (text : Text) (start stop : Nat) : List Edit → Text
  | [] => Text.slice text start stop
  | e :: edits => Text.slice text start e.start ++ e.replacement ++ splice text e.stop stop edits

/-! ### Edits from left to right -/

namespace Ordered

variable {start stop middle middle' : Nat} {e : Edit} {edits more : List Edit}

theorem nil : Ordered start stop [] := ⟨by simp, .nil⟩

theorem fit (h : Ordered start stop edits) : Fit start stop edits :=
  ⟨h.inside, h.pairwise.imp fun hab => .inl hab⟩

/-- A larger window holds the edits as well. -/
theorem mono (h : Ordered start stop edits) {start' stop' : Nat} (hstart : start' ≤ start)
    (hstop : stop ≤ stop') : Ordered start' stop' edits := by
  refine ⟨?_, h.pairwise⟩
  intro e he
  have := h.inside e he
  omega

/-- Edits of one window, and those of a window behind it. -/
theorem append (h : Ordered start middle edits) (hmore : Ordered middle' stop more)
    (hmiddle : middle ≤ middle') (hstart : start ≤ middle') (hstop : middle ≤ stop) :
    Ordered start stop (edits ++ more) := by
  constructor
  · intro e he
    rcases List.mem_append.mp he with he | he
    · have := h.inside e he
      omega
    · have := hmore.inside e he
      omega
  · refine List.pairwise_append.mpr ⟨h.pairwise, hmore.pairwise, ?_⟩
    intro a ha b hb
    have ha' := h.inside a ha
    have hb' := hmore.inside b hb
    omega

/-- One edit alone. -/
theorem singleton (hstart : start ≤ e.start) (he : e.start < e.stop) (hstop : e.stop ≤ stop) :
    Ordered start stop [e] := by
  refine ⟨?_, List.pairwise_singleton _ _⟩
  intro a ha
  rw [List.mem_singleton.mp ha]
  exact ⟨hstart, he, hstop⟩

/-- One more edit behind the others. -/
theorem concat (h : Ordered start middle edits) (hmiddle : middle ≤ e.start)
    (hstart : start ≤ e.start) (he : e.start < e.stop) (hstop : e.stop ≤ stop) :
    Ordered start stop (edits ++ [e]) :=
  h.append (singleton (Nat.le_refl _) he hstop) hmiddle hstart (by omega)

theorem of_cons (h : Ordered start stop (e :: edits)) : Ordered e.stop stop edits := by
  refine ⟨?_, (List.pairwise_cons.mp h.pairwise).2⟩
  intro a ha
  have := (List.pairwise_cons.mp h.pairwise).1 a ha
  have := h.inside a (List.mem_cons_of_mem e ha)
  omega

/-- The edits in front of an offset. -/
theorem filter_stop (h : Ordered start stop edits) (middle : Nat) :
    Ordered start middle (edits.filter fun e => e.stop ≤ middle) := by
  refine ⟨?_, h.pairwise.filter _⟩
  intro e he
  obtain ⟨hmem, hmiddle⟩ := List.mem_filter.mp he
  have := h.inside e hmem
  have := of_decide_eq_true hmiddle
  omega

/-- The edits behind an offset. -/
theorem filter_start (h : Ordered start stop edits) (middle : Nat) :
    Ordered middle stop (edits.filter fun e => middle ≤ e.start) := by
  refine ⟨?_, h.pairwise.filter _⟩
  intro e he
  obtain ⟨hmem, hmiddle⟩ := List.mem_filter.mp he
  have := h.inside e hmem
  have := of_decide_eq_true hmiddle
  omega

/-- Nothing is left to be sorted. -/
theorem inOrder_eq (h : Ordered start stop edits) : inOrder edits = edits := by
  refine List.mergeSort_of_pairwise (h.pairwise.imp_of_mem ?_)
  intro a b ha _ hab
  have := h.inside a ha
  exact decide_eq_true (by omega)

/-- Edits that stand in order are what sorting makes of them, in whatever order they come. -/
theorem inOrder_of_perm (h : Ordered start stop edits) (hperm : more.Perm edits) :
    inOrder more = edits := by
  have hsorted : edits.Pairwise fun a b => a.start ≤ b.start := by
    refine h.pairwise.imp_of_mem fun ha _ hab => ?_
    have := h.inside _ ha
    omega
  refine List.Perm.eq_of_pairwise ?_ (pairwise_inOrder more) hsorted
    ((inOrder_perm more).trans hperm)
  intro a b ha hb hab hba
  have ha' : a ∈ edits := hperm.mem_iff.mp ((inOrder_perm more).mem_iff.mp ha)
  by_contra hne
  have := h.inside a ha'
  have := h.inside b hb
  have := apart_of_pairwise h.pairwise ha' hb hne
  omega

/-- Ordered edits are applied one after the other. -/
theorem applyFrom_eq_splice (text : Text) (h : Ordered start stop edits) :
    applyFrom text stop start edits = .ok (splice text start stop edits) := by
  induction edits generalizing start with
  | nil => rfl
  | cons e edits ih =>
    obtain ⟨hstart, _, hstop⟩ := h.inside e List.mem_cons_self
    have hfits : ¬ (e.start < start ∨ stop < e.stop) := by omega
    simp only [applyFrom, if_neg hfits, ih h.of_cons, splice, Except.map]

end Ordered

/-! ### Edits that fit -/

/-- Sorting edits that fit brings them into order. -/
theorem Fit.ordered_inOrder {start stop : Nat} {edits : List Edit} (h : Fit start stop edits) :
    Ordered start stop (inOrder edits) := by
  have hinside : ∀ e ∈ inOrder edits, start ≤ e.start ∧ e.start < e.stop ∧ e.stop ≤ stop :=
    fun e he => h.inside e ((inOrder_perm edits).mem_iff.mp he)
  have hapart : (inOrder edits).Pairwise fun a b => a.stop ≤ b.start ∨ b.stop ≤ a.start :=
    h.apart.perm (inOrder_perm edits).symm fun hab => hab.symm
  refine ⟨hinside, ?_⟩
  apply (hapart.and (pairwise_inOrder edits)).imp_of_mem
  intro a b _ hb hab
  -- `b` cannot end before `a` begins, for it does not begin earlier and takes something
  have := hinside b hb
  omega

/-- **Edits that fit are applied.**  What comes out is the window with each edit's range
    replaced, from left to right. -/
theorem applyWithin_eq_splice (text : Text) {start stop : Nat} {edits : List Edit}
    (h : Fit start stop edits) :
    applyWithin text start stop edits = .ok (splice text start stop (inOrder edits)) :=
  h.ordered_inOrder.applyFrom_eq_splice text

theorem Ordered.applyWithin_eq_splice (text : Text) {start stop : Nat} {edits : List Edit}
    (h : Ordered start stop edits) :
    applyWithin text start stop edits = .ok (splice text start stop edits) := by
  rw [Edit.applyWithin_eq_splice text h.fit, h.inOrder_eq]

/-- Ranges that are taken from a list of ranges apart from each other, each once and in any
    order, are apart as well. -/
theorem Fit.of_subperm {α : Type} {start stop : Nat} {edit : α → Edit} {used found : List α}
    (hused : used.Subperm found)
    (hinside : ∀ a ∈ found, start ≤ (edit a).start ∧ (edit a).start < (edit a).stop ∧
      (edit a).stop ≤ stop)
    (hapart : found.Pairwise fun a b => (edit a).stop ≤ (edit b).start) :
    Fit start stop (used.map edit) := by
  obtain ⟨kept, hperm, hsub⟩ := hused
  constructor
  · intro e he
    obtain ⟨a, ha, rfl⟩ := List.mem_map.mp he
    exact hinside a (hsub.subset (hperm.mem_iff.mpr ha))
  · rw [List.pairwise_map]
    have hkept : kept.Pairwise fun a b =>
        (edit a).stop ≤ (edit b).start ∨ (edit b).stop ≤ (edit a).start :=
      (hapart.sublist hsub).imp fun hab => .inl hab
    exact hkept.perm hperm fun hab => hab.symm

end Edit

/-! ### Pieces of a text -/

namespace Text

section

variable {text s t : Text} {pos : Nat}

theorem slice_of_drop (h : text.drop pos = s ++ t) : slice text pos (pos + s.length) = s := by
  rw [slice, List.drop_take, h, Nat.add_sub_cancel_left, List.take_left]

theorem drop_of_drop (h : text.drop pos = s ++ t) : text.drop (pos + s.length) = t := by
  rw [← List.drop_drop, h, List.drop_left]

theorem take_of_drop (h : text.drop pos = s ++ t) :
    text.take (pos + s.length) = text.take pos ++ s := by
  rw [List.take_add, h, List.take_left]

theorem slice_split {stop : Nat} (h : text.drop pos = s ++ t) (hstop : pos + s.length ≤ stop) :
    slice text pos stop = s ++ slice text (pos + s.length) stop := by
  have hs : s.length ≤ stop - pos := by omega
  rw [slice, slice, List.drop_take, List.drop_take, h, drop_of_drop h, List.take_append,
    List.take_of_length_le hs, Nat.sub_sub]

end

/-- Two pieces of a text that follow each other. -/
theorem slice_append_slice (text : Text) {start middle stop : Nat} (h : start ≤ middle)
    (hmiddle : middle ≤ stop) (hstop : stop ≤ text.length) :
    slice text start middle ++ slice text middle stop = slice text start stop := by
  have htake : (text.take stop).take middle = text.take middle := by
    rw [List.take_take, Nat.min_eq_left hmiddle]
  have hlength : start ≤ (text.take middle).length := by
    rw [List.length_take]
    omega
  rw [slice, slice, slice, ← List.take_append_drop middle (text.take stop), htake,
    List.drop_append_of_le_length hlength, ← htake, List.take_append_drop]

theorem drop_eq_slice_append (text : Text) {start stop : Nat} (h : start ≤ stop) :
    text.drop start = slice text start stop ++ text.drop stop := by
  have hstop : text.drop stop = (text.drop start).drop (stop - start) := by
    rw [List.drop_drop, Nat.add_sub_cancel' h]
  rw [slice, List.drop_take, hstop, List.take_append_drop]

theorem length_slice {text : Text} (start : Nat) {stop : Nat} (hstop : stop ≤ text.length) :
    (slice text start stop).length = stop - start := by
  rw [slice, List.length_drop, List.length_take, Nat.min_eq_left hstop]

end Text

/-! ### Edits that put nothing in -/

namespace Text

variable {ranges : List (Nat × Nat)} {pos : Nat} {t : Text}

/-- The characters that lie in none of some ranges; the first one stands at an offset. -/
def outsideFrom (ranges : List (Nat × Nat)) (pos : Nat) (t : Text) : Text :=
  ((t.zipIdx pos).filter fun p => ranges.all fun r => p.2 < r.1 || r.2 ≤ p.2).map Prod.fst

/-- The characters of a text that lie **outside** of some ranges. -/
def outside (ranges : List (Nat × Nat)) (text : Text) : Text := outsideFrom ranges 0 text

theorem outsideFrom_append (ranges : List (Nat × Nat)) (pos : Nat) (u v : Text) :
    outsideFrom ranges pos (u ++ v) =
      outsideFrom ranges pos u ++ outsideFrom ranges (pos + u.length) v := by
  rw [outsideFrom, List.zipIdx_append, List.filter_append, List.map_append]
  rfl

theorem outsideFrom_of_before (h : ∀ r ∈ ranges, pos + t.length ≤ r.1) :
    outsideFrom ranges pos t = t := by
  have hall : (t.zipIdx pos).filter (fun p => ranges.all fun r => p.2 < r.1 || r.2 ≤ p.2) =
      t.zipIdx pos := by
    rw [List.filter_eq_self]
    intro p hp
    have hlt := List.snd_lt_add_of_mem_zipIdx hp
    rw [List.all_eq_true]
    intro r hr
    have := h r hr
    simp only [Bool.or_eq_true, decide_eq_true_eq]
    omega
  rw [outsideFrom, hall, List.zipIdx_map_fst]

theorem outsideFrom_of_inside {r : Nat × Nat} (hr : r ∈ ranges) (hstart : r.1 ≤ pos)
    (hstop : pos + t.length ≤ r.2) : outsideFrom ranges pos t = [] := by
  rw [outsideFrom, List.map_eq_nil_iff, List.filter_eq_nil_iff]
  intro p hp hout
  have hge := List.le_snd_of_mem_zipIdx hp
  have hlt := List.snd_lt_add_of_mem_zipIdx hp
  have hr := List.all_eq_true.mp hout r hr
  simp only [Bool.or_eq_true, decide_eq_true_eq] at hr
  omega

theorem outsideFrom_cons_of_behind {r : Nat × Nat} (h : r.2 ≤ pos) :
    outsideFrom (r :: ranges) pos t = outsideFrom ranges pos t := by
  unfold outsideFrom
  congr 1
  apply List.filter_congr
  intro p hp
  have hge := List.le_snd_of_mem_zipIdx hp
  have hbehind : r.2 ≤ p.2 := by omega
  simp [hbehind]

/-- Of a range and what stands behind it, nothing of the range stays. -/
theorem outsideFrom_range (ranges : List (Nat × Nat)) (pos : Nat) (u t : Text) :
    outsideFrom ((pos, pos + u.length) :: ranges) pos (u ++ t) =
      outsideFrom ranges (pos + u.length) t := by
  rw [outsideFrom_append, outsideFrom_of_inside List.mem_cons_self (Nat.le_refl _) (Nat.le_refl _),
    List.nil_append, outsideFrom_cons_of_behind (Nat.le_refl _)]

theorem outsideFrom_congr {ranges ranges' : List (Nat × Nat)} (h : ∀ r, r ∈ ranges ↔ r ∈ ranges')
    (pos : Nat) (t : Text) : outsideFrom ranges pos t = outsideFrom ranges' pos t := by
  unfold outsideFrom
  congr 1
  apply List.filter_congr
  intro p _
  rw [Bool.eq_iff_iff, List.all_eq_true, List.all_eq_true]
  exact forall_congr' fun r => imp_congr_left (h r)

/-- A further range takes away the character at which it begins, if that lies in no other one. -/
theorem outside_ne_of_subset {more : List (Nat × Nat)} {text : Text} (hsub : ranges ⊆ more)
    {r : Nat × Nat} (hr : r ∈ more) (hlt : r.1 < r.2) (hsize : r.1 < text.length)
    (hapart : ∀ r' ∈ ranges, r.1 < r'.1 ∨ r'.2 ≤ r.1) : outside more text ≠ outside ranges text := by
  intro heq
  let kept (ranges : List (Nat × Nat)) (p : Char × Nat) : Bool :=
    ranges.all fun r => p.2 < r.1 || r.2 ≤ p.2
  have hkept : ∀ p, kept more p → kept ranges p := fun p hp =>
    List.all_eq_true.mpr fun r' hr' => List.all_eq_true.mp hp r' (hsub hr')
  have hsublist : (text.zipIdx.filter (kept more)).Sublist (text.zipIdx.filter (kept ranges)) :=
    List.monotone_filter_right _ hkept
  have hlength := congrArg List.length heq
  simp only [outside, outsideFrom, List.length_map] at hlength
  have hsame := hsublist.eq_of_length hlength
  have hmem : (text[r.1], r.1) ∈ text.zipIdx.filter (kept ranges) := by
    refine List.mem_filter.mpr ⟨?_, ?_⟩
    · rw [List.mk_mem_zipIdx_iff_getElem?]
      exact List.getElem?_eq_getElem hsize
    · refine List.all_eq_true.mpr fun r' hr' => ?_
      simpa using hapart r' hr'
  rw [← hsame] at hmem
  have hout := List.all_eq_true.mp (List.mem_filter.mp hmem).2 r hr
  simp only [Bool.or_eq_true, decide_eq_true_eq] at hout
  omega

end Text

namespace Edit

/-- The edit that takes a range out. -/
def cut (range : Nat × Nat) : Edit := ⟨range.1, range.2, []⟩

/-- **Edits that put nothing in** leave the characters outside of their ranges. -/
theorem splice_cut {text : Text} {ranges : List (Nat × Nat)} {start stop : Nat}
    (h : Ordered start stop (ranges.map cut)) (hstart : start ≤ stop)
    (hstop : stop ≤ text.length) :
    splice text start stop (ranges.map cut) =
      Text.outsideFrom ranges start (Text.slice text start stop) := by
  induction ranges generalizing start with
  | nil =>
    rw [Text.outsideFrom_of_before (by simp)]
    rfl
  | cons r ranges ih =>
    obtain ⟨hbefore, hlt, hwithin⟩ : start ≤ r.1 ∧ r.1 < r.2 ∧ r.2 ≤ stop :=
      h.inside (cut r) List.mem_cons_self
    have hbehind : ∀ r' ∈ ranges, r.2 ≤ r'.1 := fun r' hr' =>
      (h.of_cons.inside (cut r') (List.mem_map_of_mem hr')).1
    have hrest : splice text r.2 stop (ranges.map cut) =
        Text.outsideFrom ranges r.2 (Text.slice text r.2 stop) := ih h.of_cons hwithin
    have hfront := Text.length_slice start (by omega : r.1 ≤ text.length)
    have hinside := Text.length_slice r.1 (by omega : r.2 ≤ text.length)
    have hlt' := Nat.le_of_lt hlt
    have hrange := Text.outsideFrom_range ranges r.1 (Text.slice text r.1 r.2)
      (Text.slice text r.2 stop)
    rw [hinside, Nat.add_sub_cancel' hlt'] at hrange
    -- the text in front of the range, the range, and the text behind it
    rw [← Text.slice_append_slice text hbefore (by omega) hstop,
      ← Text.slice_append_slice text hlt' hwithin hstop, Text.outsideFrom_append, hfront,
      Nat.add_sub_cancel' hbefore, hrange, Text.outsideFrom_of_before, ← hrest]
    · simp [splice, cut]
    · intro r' hr'
      rw [hfront]
      rcases List.mem_cons.mp hr' with rfl | hr'
      · omega
      · have := hbehind r' hr'
        omega

/-- Edits that do not cross an offset are spliced in front of it, and then behind it. -/
theorem splice_split {text : Text} {start middle stop : Nat} {edits : List Edit}
    (h : Ordered start stop edits) (hmiddle : start ≤ middle) (hstop : middle ≤ stop)
    (hsize : stop ≤ text.length) (hcross : ∀ e ∈ edits, e.stop ≤ middle ∨ middle ≤ e.start) :
    splice text start stop edits =
      splice text start middle (edits.filter fun e => e.stop ≤ middle) ++
        splice text middle stop (edits.filter fun e => middle ≤ e.start) := by
  induction edits generalizing start with
  | nil => exact (Text.slice_append_slice text hmiddle hstop hsize).symm
  | cons e edits ih =>
    obtain ⟨hbefore, hlt, hwithin⟩ := h.inside e List.mem_cons_self
    obtain ⟨hfirst, hcross⟩ := List.forall_mem_cons.mp hcross
    rcases hfirst with hfirst | hfirst
    · have hlater : ¬ middle ≤ e.start := by omega
      rw [List.filter_cons_of_pos (by simpa using hfirst),
        List.filter_cons_of_neg (by simpa using hlater), splice, splice, ih h.of_cons hfirst hcross]
      simp only [List.append_assoc]
    · -- all edits stand behind the offset
      have hall : ∀ d ∈ e :: edits, middle ≤ d.start := by
        refine List.forall_mem_cons.mpr ⟨hfirst, fun d hd => ?_⟩
        have := (h.of_cons.inside d hd).1
        omega
      have hnone : (e :: edits).filter (fun e => e.stop ≤ middle) = [] := by
        rw [List.filter_eq_nil_iff]
        intro d hd
        have := (h.inside d hd).2.1
        have := hall d hd
        simp only [decide_eq_true_eq]
        omega
      have hself : (e :: edits).filter (fun e => middle ≤ e.start) = e :: edits := by
        rw [List.filter_eq_self]
        exact fun d hd => decide_eq_true (hall d hd)
      rw [hnone, hself, splice, splice, splice,
        ← Text.slice_append_slice text hmiddle hfirst (by omega)]
      simp only [List.append_assoc]

/-- What is written in front of an edit, the edit, and what is written behind it. -/
theorem splice_append_cons (text : Text) (start stop : Nat) (es fs : List Edit) (e : Edit) :
    splice text start stop (es ++ e :: fs) =
      splice text start e.start es ++ (e.replacement ++ splice text e.stop stop fs) := by
  induction es generalizing start with
  | nil => simp [splice]
  | cons d es ih => simp [splice, ih]

/-- A text around one of its edits. -/
theorem splice_at (text : Text) {start stop : Nat} {edits : List Edit} {e : Edit}
    (h : Ordered start stop edits) (he : e ∈ edits) :
    splice text start stop edits =
      splice text start e.start (edits.filter fun d => d.stop ≤ e.start) ++
        (e.replacement ++ splice text e.stop stop (edits.filter fun d => e.stop ≤ d.start)) := by
  obtain ⟨es, fs, rfl⟩ := List.append_of_mem he
  obtain ⟨-, hbehind, hfront⟩ := List.pairwise_append.mp h.pairwise
  have hbehind := (List.pairwise_cons.mp hbehind).1
  have hlt : ∀ d ∈ es ++ e :: fs, d.start < d.stop := fun d hd => (h.inside d hd).2.1
  have he := hlt e he
  have hes : ∀ d ∈ es, d.stop ≤ e.start ∧ ¬ e.stop ≤ d.start := by
    intro d hd
    have := hfront d hd e List.mem_cons_self
    have := hlt d (List.mem_append_left _ hd)
    omega
  have hfs : ∀ d ∈ e :: fs, ¬ d.stop ≤ e.start := by
    refine List.forall_mem_cons.mpr ⟨by omega, fun d hd => ?_⟩
    have := hbehind d hd
    have := hlt d (List.mem_append_right _ (List.mem_cons_of_mem e hd))
    omega
  have hself : ¬ e.stop ≤ e.start := by omega
  have hbefore : (es ++ e :: fs).filter (fun d => d.stop ≤ e.start) = es := by
    rw [List.filter_append, List.filter_eq_self.mpr fun d hd => decide_eq_true (hes d hd).1,
      List.filter_eq_nil_iff.mpr fun d hd => by simpa using hfs d hd, List.append_nil]
  have hafter : (es ++ e :: fs).filter (fun d => e.stop ≤ d.start) = fs := by
    rw [List.filter_append, List.filter_cons_of_neg (by simpa using hself),
      List.filter_eq_nil_iff.mpr fun d hd => by simpa using (hes d hd).2,
      List.filter_eq_self.mpr fun d hd => decide_eq_true (hbehind d hd), List.nil_append]
  rw [hbefore, hafter]
  exact splice_append_cons text start stop es fs e

/-! ### Edits that take characters away -/

section

variable {text : Text} {start stop : Nat} {edits : List Edit} {x : Char}

theorem count_splice_le (h : Ordered start stop edits) (hstop : start ≤ stop)
    (hsize : stop ≤ text.length)
    (hcount : ∀ e ∈ edits, e.replacement.count x < (Text.slice text e.start e.stop).count x) :
    (splice text start stop edits).count x + edits.length ≤ (Text.slice text start stop).count x := by
  induction edits generalizing start with
  | nil => exact Nat.le_refl _
  | cons e edits ih =>
    obtain ⟨hbefore, hlt, hwithin⟩ := h.inside e List.mem_cons_self
    obtain ⟨he, hcount⟩ := List.forall_mem_cons.mp hcount
    have hrest := ih h.of_cons hwithin hcount
    rw [← Text.slice_append_slice text hbefore (by omega) hsize,
      ← Text.slice_append_slice text (Nat.le_of_lt hlt) hwithin hsize, splice]
    simp only [List.count_append, List.length_cons]
    omega

/-- Edits that take away more of a character than they put in change the text. -/
theorem eq_nil_of_splice_eq (h : Ordered 0 text.length edits)
    (hcount : ∀ e ∈ edits, e.replacement.count x < (Text.slice text e.start e.stop).count x)
    (heq : splice text 0 text.length edits = text) : edits = [] := by
  have hlength := count_splice_le h (Nat.zero_le _) (Nat.le_refl _) hcount
  rw [heq, Text.slice, List.take_length, List.drop_zero] at hlength
  exact List.eq_nil_of_length_eq_zero (by omega)

end

end Edit

end TexMark
