/-
  TexMark/Edit.lean
  =================
  **Edits of a text.** A pass over a document never splices it in place. It collects
  edits in the coordinates of the text it reads, and `Edit.apply` builds the new text
  from all of them at once. Edits that overlap, or that leave the window in which they
  are applied, are refused.

  `Edit.apply` and `Edit.applyWithin` are `apply_edits`.
-/
import TexMark.Text.Basic

namespace TexMark

/-- An **edit** puts `replacement` in the place of the characters from `start` up to
    `stop`. -/
structure Edit where
  start : Nat
  stop : Nat
  replacement : Text
deriving DecidableEq, Repr

namespace Edit

/-- An edit that begins before the `cursor`, or ends after the end of the window. -/
structure Misfit where
  edit : Edit
  cursor : Nat
  windowStop : Nat
deriving DecidableEq, Repr

def Misfit.message (m : Misfit) : Text :=
  "edit " ++ Text.ofNat m.edit.start ++ ":" ++ Text.ofNat m.edit.stop ++
    " outside window " ++ Text.ofNat m.cursor ++ ":" ++ Text.ofNat m.windowStop

/-- The edits from left to right; those with one start keep their order. -/
def inOrder (edits : List Edit) : List Edit :=
  edits.mergeSort fun a b => a.start ≤ b.start

theorem inOrder_perm (edits : List Edit) : (inOrder edits).Perm edits :=
  List.mergeSort_perm edits _

theorem pairwise_inOrder (edits : List Edit) :
    (inOrder edits).Pairwise fun a b => a.start ≤ b.start := by
  have h : (inOrder edits).Pairwise fun a b => decide (a.start ≤ b.start) :=
    List.pairwise_mergeSort
      (fun a b c hab hbc => by
        simp only [decide_eq_true_eq] at *
        omega)
      (fun a b => by
        simp only [Bool.or_eq_true, decide_eq_true_eq]
        omega)
      edits
  exact h.imp fun hab => of_decide_eq_true hab

/-- Applies edits that stand in order to the characters from `cursor` up to `stop`. -/
def applyFrom (text : Text) (stop cursor : Nat) : List Edit → Except Misfit Text
  | [] => .ok (Text.slice text cursor stop)
  | e :: edits =>
    if e.start < cursor ∨ stop < e.stop then .error ⟨e, cursor, stop⟩
    else (applyFrom text stop e.stop edits).map fun rest =>
      Text.slice text cursor e.start ++ e.replacement ++ rest

/-- Applies edits to the window of a text from `start` up to `stop` (`apply_edits`). -/
def applyWithin (text : Text) (start stop : Nat) (edits : List Edit) : Except Misfit Text :=
  applyFrom text stop start (inOrder edits)

def apply (text : Text) (edits : List Edit) : Except Misfit Text :=
  applyWithin text 0 text.length edits

end Edit

end TexMark
