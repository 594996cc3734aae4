/-
  TexMark/Proofs/Label/Occurrences.lean
  =====================================
  **Labels and references as they are written.**  Both are commands with one argument that holds
  no brace (`Scan.FlatCommand`), so that none of them covers another one, and the scans miss none:

    * `Label.command_spec`, `Reference.command_spec` — how the commands are written;
    * `Label.mem_found_iff`, `Reference.mem_found_iff` — what the scans find is what occurs.
-/
import Mathlib.Data.Bool.AllAny
import Mathlib.Data.List.Nodup
import TexMark.Proofs.Scans

namespace TexMark

/-- A blank neither begins a command nor delimits an argument. -/
theorem Text.ne_of_isBlank {c : Char} (h : isBlank c) : c ≠ '\\' ∧ c ≠ '{' ∧ c ≠ '}' := by
  refine ⟨?_, ?_, ?_⟩ <;>
  · rintro rfl
    revert h
    decide

namespace Label

/-- The labels of a text in their order, without the escaped ones. -/
def found (text : Text) : List (Hit Text) :=
  (Scan.hits command text).filter fun h => !Scan.isEscaped text h.start

/-- A label is its command, blanks, and a name between two braces. -/
theorem command_spec {before t value after : Text} (h : command before t = some (value, after)) :
    ∃ gap, t = "\\label".toList ++ gap ++ '{' :: (value ++ '}' :: after) ∧
      (∀ c ∈ gap, Text.isBlank c) ∧ ∀ c ∈ value, c ≠ '{' ∧ c ≠ '}' := by
  obtain ⟨t', ht', hbraces⟩ := Option.bind_eq_some_iff.mp h
  obtain ⟨hname, hvalue⟩ := Markup.flatBraces?_eq_some_iff.mp hbraces
  refine ⟨t'.takeWhile Text.isBlank, ?_, fun c hc => List.mem_takeWhile_imp hc, hvalue⟩
  rw [List.append_assoc, ← hname, Text.skipBlanks, List.takeWhile_append_dropWhile]
  exact Text.dropPrefix?_eq_some_iff.mp ht'

theorem flatCommand_command : Scan.FlatCommand command := by
  intro before t value after h
  obtain ⟨gap, rfl, hgap, hvalue⟩ := command_spec h
  refine ⟨"label".toList ++ gap, value, rfl, ?_, hvalue⟩
  exact List.forall_mem_append.mpr
    ⟨List.all_iff_forall_prop.mp (by decide), fun c hc => Text.ne_of_isBlank (hgap c hc)⟩

/-- **The labels of a text** are those that occur in it. -/
theorem mem_found_iff {text : Text} {h : Hit Text} :
    h ∈ found text ↔ Scan.Occurs command text h := flatCommand_command.mem_hits_iff

theorem pairwise_found (text : Text) : (found text).Pairwise fun a b => a.stop ≤ b.start :=
  ((Scan.pairwise_hits command text).imp And.left).filter _

end Label

namespace Reference

/-- The references of a text in their order, without the escaped ones. -/
def found (text : Text) : List (Hit Command) :=
  (Scan.hits command text).filter fun h => !Scan.isEscaped text h.start

/-- A reference is its command, a star or none, blanks, and a label between two braces. -/
theorem command_spec {before t after : Text} {value : Command}
    (h : command before t = some (value, after)) :
    ∃ star gap, t = '\\' :: value.name ++ star ++ gap ++ '{' :: (value.label ++ '}' :: after) ∧
      value.name ∈ commandNames ∧ (star = [] ∨ star = ['*']) ∧ (∀ c ∈ gap, Text.isBlank c) ∧
      ∀ c ∈ value.label, c ≠ '{' ∧ c ≠ '}' := by
  simp only [command, Option.bind_eq_bind, Option.pure_def, Option.bind_eq_some_iff,
    Option.some.injEq, Prod.mk.injEq] at h
  obtain ⟨⟨name, afterName⟩, hname, ⟨label, after'⟩, hlabel, rfl, rfl⟩ := h
  obtain ⟨name', hmem, hcommand⟩ := List.exists_of_findSome?_eq_some hname
  obtain ⟨rest, hrest, heq⟩ := Option.map_eq_some_iff.mp hcommand
  cases heq
  obtain ⟨hbraces, hflat⟩ := Markup.flatBraces?_eq_some_iff.mp hlabel
  obtain ⟨star, hstar, hafterName⟩ : ∃ star : Text, (star = [] ∨ star = ['*']) ∧
      afterName = star ++ (Markup.star afterName).2 := by
    unfold Markup.star
    split
    · exact ⟨['*'], .inr rfl, rfl⟩
    · exact ⟨[], .inl rfl, rfl⟩
  refine ⟨star, (Markup.star afterName).2.takeWhile Text.isBlank, ?_, hmem, hstar,
    fun c hc => List.mem_takeWhile_imp hc, hflat⟩
  rw [Text.dropPrefix?_eq_some_iff.mp hrest, List.append_assoc, ← hbraces, Text.skipBlanks,
    List.takeWhile_append_dropWhile, List.append_assoc, ← hafterName]

theorem flatCommand_command : Scan.FlatCommand command := by
  intro before t value after h
  obtain ⟨star, gap, rfl, hname, hstar, hgap, hlabel⟩ := command_spec h
  have hnames : ∀ name ∈ commandNames, ∀ c ∈ name, c ≠ '\\' ∧ c ≠ '{' ∧ c ≠ '}' := by
    simp only [← List.all_iff_forall_prop]
    decide
  have hstars : ∀ c ∈ star, c ≠ '\\' ∧ c ≠ '{' ∧ c ≠ '}' := by
    rcases hstar with rfl | rfl
    · exact nofun
    · exact List.forall_mem_singleton.mpr (by decide)
  refine ⟨value.name ++ star ++ gap, value.label, by simp, ?_, hlabel⟩
  exact List.forall_mem_append.mpr ⟨List.forall_mem_append.mpr ⟨hnames _ hname, hstars⟩,
    fun c hc => Text.ne_of_isBlank (hgap c hc)⟩

/-- **The references of a text** are those that occur in it. -/
theorem mem_found_iff {text : Text} {h : Hit Command} :
    h ∈ found text ↔ Scan.Occurs command text h := flatCommand_command.mem_hits_iff

theorem pairwise_found (text : Text) : (found text).Pairwise fun a b => a.stop ≤ b.start :=
  ((Scan.pairwise_hits command text).imp And.left).filter _

/-- Two references that begin at one place are one. -/
theorem eq_of_start {text : Text} {r r' : Hit Command} (hr : r ∈ found text)
    (hr' : r' ∈ found text) (hstart : r.start = r'.start) : r = r' := by
  have hnodup : ((found text).map (·.start)).Nodup :=
    List.pairwise_map.mpr
      (((Scan.pairwise_hits command text).imp fun hab => Nat.ne_of_lt hab.2).filter _)
  exact List.inj_on_of_nodup_map hnodup hr hr' hstart

end Reference

end TexMark
