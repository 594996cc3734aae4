/-
  TexMark/Proofs/Environment/Columns.lean
  =======================================
  **Columns of the old form.**  An environment of the old form has two column marks in a row, and
  the second is taken away (`mergedAt`).  What is taken for a mark is any ampersand, whether or not
  it is escaped and wherever it stands (`mergeColumns_eq`):

    * `mergedAt_of_columnMarks` — of two marks the second is taken away if no other ampersand stands
      before it, and otherwise it is still there;
    * `rows_of_legacy` — this is so in each row of a converted environment.
-/
import Mathlib.Data.List.Forall2
import TexMark.Proofs.Delimiter.Output
import TexMark.Proofs.Environment.RowSpacing
import TexMark.Proofs.Rows.Separators

namespace TexMark.Environment

open Text (strip)

variable {a b row row' t : Text} {i j p q : Nat}

/-! ### Ampersands -/

/-- The offsets of the ampersands of a row. -/
def ampersands (row : Text) : List Nat := row.idxsOf '&'

/-- A row without the ampersand at the second of two offsets, and without the blanks around the
    cell between them. -/
def mergedAt (row : Text) (p q : Nat) : Text :=
  row.take p ++ '&' :: (strip (Text.slice row (p + 1) q) ++ row.drop (q + 1))

theorem ampersands_eq_nil (ha : '&' ∉ a) : ampersands a = [] := by
  rw [ampersands, List.idxsOf_eq_nil_iff]
  intro c hc
  have hne : c ≠ '&' := by
    rintro rfl
    exact ha hc
  simpa using hne

theorem ampersands_append_cons (ha : '&' ∉ a) (t : Text) :
    ampersands (a ++ '&' :: t) = a.length :: (ampersands t).map (· + (a.length + 1)) := by
  have hfront : a.idxsOf '&' = [] := ampersands_eq_nil ha
  rw [ampersands, List.idxsOf_append, hfront, List.nil_append, List.idxsOf_cons,
    if_pos (beq_self_eq_true '&'), List.idxsOf_start, Nat.zero_add]
  rfl

/-- The rows with fewer than two ampersands, and the others. -/
theorem ampersands_cases (row : Text) :
    '&' ∉ row ∨ (∃ a b, row = a ++ '&' :: b ∧ '&' ∉ a ∧ '&' ∉ b) ∨
      ∃ a b t, row = a ++ '&' :: (b ++ '&' :: t) ∧ '&' ∉ a ∧ '&' ∉ b := by
  by_cases hrow : '&' ∈ row
  · obtain ⟨a, t, rfl, ha⟩ := List.eq_append_cons_of_mem hrow
    by_cases ht : '&' ∈ t
    · obtain ⟨b, t, rfl, hb⟩ := List.eq_append_cons_of_mem ht
      exact .inr (.inr ⟨a, b, t, rfl, ha, hb⟩)
    · exact .inr (.inl ⟨a, t, rfl, ha, ht⟩)
  · exact .inl hrow

/-! ### Merging -/

theorem bne_of_not_mem (hb : '&' ∉ b) : ∀ c ∈ b, (c != '&') = true :=
  fun _ hc => bne_iff_ne.mpr (ne_of_mem_of_not_mem hc hb)

theorem run_of_not_mem (hb : '&' ∉ b) (t : Text) :
    Markup.run (· != '&') (b ++ '&' :: t) = (b, '&' :: t) := by
  have hall := bne_of_not_mem hb
  rw [Markup.run, List.takeWhile_append_of_pos hall, List.dropWhile_append_of_pos hall]
  simp

theorem mergeColumns_of_not_mem (ha : '&' ∉ a) : mergeColumns a = a := by
  have := mergeColumns_append ha []
  rwa [mergeColumns, List.append_nil] at this

theorem mergeColumns_of_one (ha : '&' ∉ a) (hb : '&' ∉ b) :
    mergeColumns (a ++ '&' :: b) = a ++ '&' :: b := by
  have hall : b.dropWhile (· != '&') = [] := List.dropWhile_eq_nil_iff.mpr (bne_of_not_mem hb)
  rw [mergeColumns_append ha, mergeColumns, if_pos rfl, Markup.run, hall]

theorem mergeColumns_of_two (ha : '&' ∉ a) (hb : '&' ∉ b) (t : Text) :
    mergeColumns (a ++ '&' :: (b ++ '&' :: t)) = a ++ '&' :: (strip b ++ t) := by
  rw [mergeColumns_append ha, mergeColumns, if_pos rfl, run_of_not_mem hb]
  rfl

/-- **What merging columns does:** the second ampersand of the row goes, whatever it is. -/
theorem mergeColumns_eq (row : Text) : mergeColumns row =
    match ampersands row with
    | p :: q :: _ => mergedAt row p q
    | _ => row := by
  rcases ampersands_cases row with hrow | ⟨a, b, rfl, ha, hb⟩ | ⟨a, b, t, rfl, ha, hb⟩
  · rw [mergeColumns_of_not_mem hrow, ampersands_eq_nil hrow]
  · rw [mergeColumns_of_one ha hb, ampersands_append_cons ha, ampersands_eq_nil hb]
    rfl
  · rw [mergeColumns_of_two ha hb, ampersands_append_cons ha, ampersands_append_cons hb]
    have hmiddle : (a ++ '&' :: (b ++ '&' :: t)).drop (a.length + 1) = b ++ '&' :: t := by
      rw [← List.drop_drop, List.drop_left, List.drop_one, List.tail_cons]
    have hcell := Text.slice_of_drop hmiddle
    have hrest := Text.drop_of_drop hmiddle
    simp only [List.map_cons]
    rw [Nat.add_comm b.length, mergedAt, List.take_left, hcell, ← List.drop_drop, hrest,
      List.drop_one, List.tail_cons]

/-- Besides blanks, only the second of the two ampersands is lost. -/
theorem ink_mergedAt (hpq : p < q) (hp : p ∈ ampersands row) :
    Rows.ink (mergedAt row p q) = Rows.ink (row.eraseIdx q) := by
  obtain ⟨hlength, hmark⟩ := List.mem_idxsOf_iff_exists_getElem_pos.mp hp
  have hfront : row.take q = row.take p ++ '&' :: Text.slice row (p + 1) q := by
    have hmark' : (row.take q).drop p = '&' :: (row.take q).drop (p + 1) := by
      rw [List.drop_eq_getElem_cons (by rw [List.length_take]; omega), List.getElem_take,
        beq_iff_eq.mp hmark]
    have hlong : row.take p = (row.take q).take p := by
      rw [List.take_take, Nat.min_eq_left hpq.le]
    rw [Text.slice, ← hmark', hlong, List.take_append_drop]
  have hcons (t : Text) : Rows.ink ('&' :: t) = '&' :: Rows.ink t := rfl
  rw [mergedAt, List.eraseIdx_eq_take_drop_succ, hfront, List.append_assoc]
  simp only [Rows.ink_append, Rows.ink_strip, List.cons_append, hcons]

/-! ### Column marks -/

/-- The column marks of a row: the ampersands that are not escaped and stand outside all braces and
    environments. -/
def columnMarks (row : Text) : List Nat :=
  (ampersands row).filter fun i => !Scan.isEscaped row i && decide (Rows.Outside row i)

/-- Behind two members of an ascending list, its second member has come. -/
theorem second_le {x y : Nat} {more : List Nat} (h : (p :: q :: more).Pairwise (· < ·))
    (hx : x ∈ p :: q :: more) (hy : y ∈ p :: q :: more) (hxy : x < y) : q ≤ y := by
  obtain ⟨hp, hrest⟩ := List.pairwise_cons.mp h
  obtain ⟨hq, -⟩ := List.pairwise_cons.mp hrest
  rcases List.mem_cons.mp hy with rfl | hy
  · rcases List.mem_cons.mp hx with rfl | hx
    · omega
    · have := hp x hx
      omega
  · rcases List.mem_cons.mp hy with rfl | hy
    · exact le_rfl
    · exact (hq y hy).le

theorem pairwise_ampersands (row : Text) : (ampersands row).Pairwise (· < ·) := List.pairwise_idxsOf

/-- Two column marks are ampersands, one behind the other. -/
theorem mem_of_columnMarks (h : columnMarks row = [i, j]) :
    i ∈ ampersands row ∧ j ∈ ampersands row ∧ i < j := by
  have hsub : (columnMarks row).Sublist (ampersands row) := List.filter_sublist
  rw [h] at hsub
  have hlt := (pairwise_ampersands row).sublist hsub
  exact ⟨hsub.subset (by simp), hsub.subset (by simp), by simpa using hlt⟩

/-- **Two column marks.**  The second is taken away if no other ampersand stands before it;
    otherwise it is still there. -/
theorem mergeColumns_of_columnMarks (h : columnMarks row = [i, j]) :
    ((∀ k ∈ ampersands row, k < j → k = i) → mergeColumns row = mergedAt row i j) ∧
    ((∃ k ∈ ampersands row, k < j ∧ k ≠ i) → row.drop j <:+ mergeColumns row) := by
  obtain ⟨hi, hj, hij⟩ := mem_of_columnMarks h
  have hascending := pairwise_ampersands row
  rw [mergeColumns_eq]
  rcases hrow : ampersands row with _ | ⟨p, _ | ⟨q, more⟩⟩
  · rw [hrow] at hi
    cases hi
  · rw [hrow, List.mem_singleton] at hi hj
    omega
  · rw [hrow] at hi hj hascending
    have hfirst : p < q := by simpa using (List.pairwise_cons.mp hascending).1 q
    constructor
    · intro hnone
      have hq := second_le hascending hi hj hij
      have hp : p = i := hnone p List.mem_cons_self (by omega)
      have hq' : q = j := by
        by_contra hne
        have := hnone q (by simp) (by omega)
        omega
      rw [hp, hq']
    · rintro ⟨k, hk, hkj, hki⟩
      have hq : q < j := by
        rcases Nat.lt_or_gt_of_ne hki with hlt | hlt
        · exact (second_le hascending hk hi hlt).trans_lt hij
        · exact (second_le hascending hi hk hlt).trans_lt hkj
      have hkept : row.drop j <:+ row.drop (q + 1) := List.drop_suffix_drop_left row hq
      refine hkept.trans ?_
      change _ <:+ row.take p ++ '&' :: (strip (Text.slice row (p + 1) q) ++ row.drop (q + 1))
      rw [← List.cons_append, ← List.append_assoc]
      exact List.suffix_append _ _

/-- **Rows of environments of the old form.**  Each row is converted on its own, and loses its
    second ampersand.  That is its second column mark, unless an ampersand that is escaped, or
    stands inside braces or an environment, comes before it; then both marks are still there. -/
theorem rows_of_legacy (settings : Settings) (frame : Frame) (content : Text) (equations : Nat)
    (hlegacy : legacyNames.contains frame.name) :
    ∃ rows, Converter.aligned.apply settings frame content equations =
        pure (Delimiter.display (wrapped "aligned" [] (Rows.join rows)), equations) ∧
      List.Forall₂ (fun row row' =>
        ((ampersands row).length < 2 → row' = row) ∧
        (∀ p q more, ampersands row = p :: q :: more →
          row' = mergedAt row p q ∧ Rows.ink row' = Rows.ink (row.eraseIdx q)) ∧
        ∀ i j, columnMarks row = [i, j] →
          ((∀ k ∈ ampersands row, k < j → k = i) → row' = mergedAt row i j) ∧
          ((∃ k ∈ ampersands row, k < j ∧ k ≠ i) → row.drop j <:+ row'))
        (Rows.split content) rows := by
  refine ⟨(Rows.split content).map mergeColumns, ?_, ?_⟩
  · rw [Converter.apply, alignedRows, if_pos hlegacy]
  · rw [List.forall₂_map_right_iff, List.forall₂_same]
    intro row _
    refine ⟨fun hfew => ?_, fun p q more hrow => ?_, fun i j h => mergeColumns_of_columnMarks h⟩
    · rw [mergeColumns_eq]
      split
      · rename_i hrow
        simp only [hrow, List.length_cons] at hfew
        omega
      · rfl
    · have hascending := pairwise_ampersands row
      rw [hrow] at hascending
      have hpq : p < q := (List.pairwise_cons.mp hascending).1 q List.mem_cons_self
      have hmerged : mergeColumns row = mergedAt row p q := by rw [mergeColumns_eq, hrow]
      exact ⟨hmerged, by rw [hmerged, ink_mergedAt hpq (by simp [hrow])]⟩

/-- The matrix of the right column keeps its ampersand. -/
theorem rows_of_legacy_matrix :
    let frame : Frame := ⟨"eqnarray", 0, 16, [], none, none, none, false⟩
    let row : Text := "a & = & \\begin{matrix} b & c \\end{matrix}"
    Rows.split row = [row] ∧ columnMarks row = [2, 6] ∧
    (Converter.aligned.apply numberingSettings frame row 0).result =
      .ok (("$$\n\\begin{aligned}\na &= \\begin{matrix} b & c " ++
        "\\end{matrix}\n\\end{aligned}\n$$").toList, 0) := by
  intro frame row
  have hsplit : Rows.split row = [row] := by decide +kernel
  have hmarks : columnMarks row = [2, 6] := by decide +kernel
  refine ⟨hsplit, hmarks, ?_⟩
  obtain ⟨rows, happly, hrows⟩ := rows_of_legacy numberingSettings frame row 0 (by decide)
  rw [hsplit] at hrows
  obtain ⟨row', rest, hrow, hrest, rfl⟩ := List.forall₂_cons_left_iff.mp hrows
  obtain rfl := List.forall₂_nil_left_iff.mp hrest
  rw [happly, (hrow.2.2 2 6 hmarks).1 (by decide +kernel)]
  refine congrArg (fun t => Except.ok (t, 0)) ?_
  decide +kernel

def escapedDocument : Text := "\\begin{eqnarray}a \\& b & = & c\\end{eqnarray}"

/-- **An escaped ampersand** is taken for a mark: both marks of this row are there afterwards,
    and the cell behind the ampersand has lost its blanks instead. -/
theorem rows_of_escaped :
    let row : Text := "a \\& b & = & c"
    Rows.split row = [row] ∧ columnMarks row = [7, 11] ∧
    mergedAt row 7 11 = "a \\& b &= c".toList ∧
    (resolve numberingSettings .empty 0 escapedDocument).result =
      .ok ⟨"$$\n\\begin{aligned}\na \\&b = & c\n\\end{aligned}\n$$", .empty, 0⟩ := by
  intro row
  refine ⟨by decide +kernel, by decide +kernel, by decide +kernel, ?_⟩
  rw [resolve_eq_run]
  rfl

end TexMark.Environment
