/-
  TexMark/Proofs/Label/Numbers.lean
  =================================
  **What a label is recorded as.**  The table of the labels is filled hit by hit, with one
  counter for each category.  What it says in the end is told here without the counters:

    * the number of a label is the one that its construct shows, or else the base and the
      number of labels of the same category in front of it (`recordOf`);
    * under a name stands the record of the last label of that name (`get?_tableOf`), and the
      others are reported (`duplicatesFrom`);
    * `collectHit_eq`, `foldlM_collectHit` — one step of the collection, and a run;
    * `numbers_of_collect` — what the collection says of all labels of a text.
-/
import TexMark.Proofs.Label.Occurrences
import TexMark.Proofs.Notes
import TexMark.Proofs.Tables
import Mathlib.Data.List.Forall2

namespace TexMark

namespace Label

open Noted (bind_of_ok bind_pure_of_eq)

/-- The name under which a label is recorded. -/
def labelName (h : Hit Text) : Text := Text.strip h.value

def category (text : Text) (h : Hit Text) : Text := (classify text h.start).category

/-- The number of a label behind some earlier ones. -/
def numberOf (base : Int) (text : Text) (earlier : List (Hit Text)) (h : Hit Text) : Number :=
  match shownNumber? (nearest? text h.start) with
  | some shown => .shown shown
  | none => .counted (base + earlier.countP fun e => category text e == category text h)

def recordOf (base : Int) (text : Text) (earlier : List (Hit Text)) (h : Hit Text) : Record :=
  ⟨labelName h, numberOf base text earlier h, category text h, (classify text h.start).name?⟩

/-- The records of labels that stand behind some earlier ones. -/
def recordsFrom (base : Int) (text : Text) (earlier : List (Hit Text)) :
    List (Hit Text) → List Record
  | [] => []
  | h :: hs => recordOf base text earlier h :: recordsFrom base text (earlier ++ [h]) hs

/-- What is reported of a label whose name has been there before. -/
def duplicate (h : Hit Text) : Diagnostic :=
  ⟨.duplicateLabel,
    "Label " ++ Text.quoted (labelName h) ++ " defined more than once; the later one wins", h.start⟩

/-- What is reported of labels that stand behind some earlier ones. -/
def duplicatesFrom (earlier : List (Hit Text)) : List (Hit Text) → List Diagnostic
  | [] => []
  | h :: hs => (if ∃ e ∈ earlier, labelName e = labelName h then [duplicate h] else []) ++
      duplicatesFrom (earlier ++ [h]) hs

/-- The table of some records, which are put in one after the other. -/
def tableOf (records : List Record) : Table Record :=
  Table.merge [] (records.map fun r => (r.label, r))

variable {base : Int} {text : Text} {earlier taken hs : List (Hit Text)} {h : Hit Text}
  {s : Progress} {records : List Record}

/-! ### Records -/

theorem category_recordOf : (recordOf base text earlier h).category = category text h := by
  rw [recordOf]

theorem label_recordOf : (recordOf base text earlier h).label = labelName h := by
  rw [recordOf]

theorem subject_recordOf : ⟨(recordOf base text earlier h).category,
    (recordOf base text earlier h).name?⟩ = classify text h.start := by
  rw [recordOf, category]

theorem recordsFrom_append (hs hs' : List (Hit Text)) :
    recordsFrom base text earlier (hs ++ hs') =
      recordsFrom base text earlier hs ++ recordsFrom base text (earlier ++ hs) hs' := by
  induction hs generalizing earlier with
  | nil => simp [recordsFrom]
  | cons h hs ih => simp [recordsFrom, ih]

theorem map_label_recordsFrom :
    (recordsFrom base text earlier hs).map (·.label) = hs.map labelName := by
  induction hs generalizing earlier with
  | nil => rfl
  | cons h hs ih => exact congrArg (labelName h :: ·) ih

theorem nodup_tableOf (records : List Record) : (tableOf records).names.Nodup :=
  Table.nodup_names_merge List.nodup_nil

theorem tableOf_concat (records : List Record) (r : Record) :
    tableOf (records ++ [r]) = (tableOf records).put r.label r := by
  rw [tableOf, List.map_append]
  exact List.foldl_concat _ _ _ _

/-- Under a name stands the last record of that name. -/
theorem get?_tableOf (records : List Record) (name : Text) :
    (tableOf records).get? name = (records.filter fun r => r.label = name).getLast? := by
  have hname : ((fun e : Text × Record => e.1 == name) ∘ fun r => (r.label, r)) =
      fun r => decide (r.label = name) := funext fun r => Bool.eq_iff_iff.mpr (by simp)
  rw [tableOf, Table.get?_merge_last, List.filter_map, hname, List.getLast?_map, Option.map_map]
  simp [Table.get?, Function.comp_def]

theorem has_tableOf_iff {name : Text} :
    (tableOf (recordsFrom base text [] taken)).has name ↔ ∃ e ∈ taken, labelName e = name := by
  have hnames : Table.names ((recordsFrom base text [] taken).map fun r => (r.label, r)) =
      taken.map labelName := by
    rw [Table.names, List.map_map]
    exact map_label_recordsFrom
  rw [Table.has, Table.get?_isSome_iff, tableOf, Table.mem_names_merge, hnames, List.mem_map]
  simp [Table.names]

/-! ### One step, and a run -/

/-- The counters and the table tell of the labels that have been taken. -/
structure Numbered (base : Int) (text : Text) (taken : List (Hit Text)) (s : Progress) : Prop where
  counts : ∀ name, (s.counts.get? name).getD 0 = taken.countP fun h => category text h == name
  labels : s.labels = tableOf (recordsFrom base text [] taken)

theorem Numbered.start (base : Int) (text : Text) : Numbered base text [] ⟨[], []⟩ :=
  ⟨fun _ => rfl, rfl⟩

/-- One more label: the counter of its category goes on, and its record covers those that
    were under its name. -/
theorem Numbered.add (hs : Numbered base text taken s) (h : Hit Text) :
    Numbered base text (taken ++ [h])
      ⟨s.counts.put (category text h) ((s.counts.get? (category text h)).getD 0 + 1),
        s.labels.put (labelName h) (recordOf base text taken h)⟩ := by
  constructor
  · intro name
    have hcount := hs.counts name
    simp only [Table.get?_put, List.countP_append, List.countP_singleton, beq_iff_eq]
    by_cases hname : name = category text h
    · rw [if_pos hname, if_pos hname.symm, ← hname, hcount, Option.getD_some]
    · rw [if_neg hname, if_neg (Ne.symm hname), hcount, Nat.add_zero]
  · rw [hs.labels, recordsFrom_append]
    exact (tableOf_concat (recordsFrom base text [] taken) (recordOf base text taken h)).symm

/-- Of several labels of one name the last is found. -/
theorem Numbered.last (hs : Numbered base text taken s) (earlier : List (Hit Text)) (h : Hit Text)
    (later : List (Hit Text)) (htaken : taken = earlier ++ h :: later)
    (hlast : ∀ l ∈ later, labelName l ≠ labelName h) :
    s.labels.get? (labelName h) = some (recordOf base text earlier h) := by
  have hlater : ∀ r ∈ recordsFrom base text (earlier ++ [h]) later, r.label ≠ labelName h := by
    intro r hr
    have hmem : r.label ∈ later.map labelName := map_label_recordsFrom ▸ List.mem_map_of_mem hr
    obtain ⟨l, hl, hname⟩ := List.mem_map.mp hmem
    exact hname ▸ hlast l hl
  have hnone : (recordsFrom base text (earlier ++ [h]) later).filter
      (fun r => r.label = labelName h) = [] :=
    List.filter_eq_nil_iff.mpr fun r hr => by simpa using hlater r hr
  have hown : (recordOf base text earlier h).label = labelName h := rfl
  rw [hs.labels, htaken, get?_tableOf, recordsFrom_append, List.nil_append, List.filter_append,
    recordsFrom, List.filter_cons_of_pos (by simp [hown]), hnone, List.getLast?_concat]

/-- **One step of the collection**, for a label that is not escaped. -/
theorem collectHit_eq (hs : Numbered base text taken s)
    (hescaped : Scan.isEscaped text h.start = false) :
    collectHit base text s h = ⟨duplicatesFrom taken [h], .ok
      ⟨s.counts.put (category text h) ((s.counts.get? (category text h)).getD 0 + 1),
        s.labels.put (labelName h) (recordOf base text taken h)⟩⟩ := by
  have hrepeated : s.labels.has (labelName h) ↔ ∃ e ∈ taken, labelName e = labelName h := by
    rw [hs.labels, has_tableOf_iff]
  have hnotes : duplicatesFrom taken [h] =
      if s.labels.has (labelName h) then [duplicate h] else [] := by
    simp only [duplicatesFrom, List.append_nil, hrepeated]
  rw [hnotes]
  unfold collectHit recordOf numberOf duplicate
  rw [if_neg (by simp [hescaped]), ← hs.counts]
  unfold category classify labelName
  -- of the marker only the shown number and the subject are used
  generalize nearest? text h.start = marker
  dsimp only
  cases shownNumber? marker with
  | none => split <;> rfl
  | some shown => split <;> rfl

/-- **A run of the collection** behind the labels that have been taken. -/
theorem foldlM_collectHit (hs : Numbered base text taken s) {todo : List (Hit Text)}
    (htodo : ∀ h ∈ todo, Scan.isEscaped text h.start = false) :
    ∃ s', todo.foldlM (collectHit base text) s = ⟨duplicatesFrom taken todo, .ok s'⟩ ∧
      Numbered base text (taken ++ todo) s' := by
  induction todo generalizing taken s with
  | nil => exact ⟨s, rfl, (List.append_nil taken).symm ▸ hs⟩
  | cons h todo ih =>
    obtain ⟨hfirst, hrest⟩ := List.forall_mem_cons.mp htodo
    obtain ⟨s', hrun, hnumbered⟩ := ih (hs.add h) hrest
    rw [List.append_assoc] at hnumbered
    refine ⟨s', ?_, hnumbered⟩
    rw [List.foldlM_cons, collectHit_eq hs hfirst, bind_of_ok rfl, hrun]
    simp [duplicatesFrom]

theorem foldlM_unescaped (hits : List (Hit Text)) (s : Progress) :
    hits.foldlM (collectHit base text) s =
      (hits.filter fun h => !Scan.isEscaped text h.start).foldlM (collectHit base text) s :=
  Noted.foldlM_filter (fun _ _ hescaped => if_pos (by simpa using hescaped)) hits s

/-- Whatever hits are taken, the table tells of those that are not escaped. -/
theorem numbered_foldlM (base : Int) (text : Text) (hits : List (Hit Text)) :
    ∃ s, (hits.foldlM (collectHit base text) ⟨[], []⟩).result = .ok s ∧
      Numbered base text (hits.filter fun h => !Scan.isEscaped text h.start) s := by
  have hunescaped : ∀ h ∈ hits.filter fun h => !Scan.isEscaped text h.start,
      Scan.isEscaped text h.start = false := fun h hmem => by
    simpa using (List.mem_filter.mp hmem).2
  obtain ⟨s, hrun, hnumbered⟩ := foldlM_collectHit (Numbered.start base text) hunescaped
  rw [← foldlM_unescaped] at hrun
  exact ⟨s, congrArg Noted.result hrun, hnumbered⟩

theorem collect_eq (base : Int) (text : Text) : collect base text =
    ⟨duplicatesFrom [] (found text), .ok (tableOf (recordsFrom base text [] (found text)))⟩ := by
  have hunescaped : ∀ h ∈ found text, Scan.isEscaped text h.start = false := fun h hmem =>
    (mem_found_iff.mp hmem).unescaped
  obtain ⟨s, hrun, hnumbered⟩ := foldlM_collectHit (Numbered.start base text) hunescaped
  rw [found, ← foldlM_unescaped] at hrun
  rw [collect, bind_pure_of_eq hrun, hnumbered.labels]
  rfl

theorem exists_result_collect (base : Int) (text : Text) :
    ∃ labels, (collect base text).result = .ok labels := ⟨_, congrArg Noted.result (collect_eq ..)⟩

/-- **The table of the labels**: under each name the record of its last label. -/
theorem get?_collect {labels : Table Record} (hlabels : (collect base text).result = .ok labels)
    {earlier later : List (Hit Text)} {h : Hit Text} (hfound : found text = earlier ++ h :: later)
    (hlast : ∀ l ∈ later, labelName l ≠ labelName h) :
    labels.get? (labelName h) = some (recordOf base text earlier h) := by
  obtain ⟨s, hs, hnumbered⟩ := numbered_foldlM base text (Scan.hits command text)
  rw [collect, bind_of_ok hs] at hlabels
  cases hlabels
  exact hnumbered.last earlier h later hfound hlast

theorem nodup_collect {labels : Table Record} (hlabels : (collect base text).result = .ok labels) :
    labels.names.Nodup := by
  rw [collect_eq] at hlabels
  cases hlabels
  exact nodup_tableOf _

/-! ### All labels of a text -/

/-- The number of a label in front of which its category has `k` labels. -/
def numberAt (base : Int) (text : Text) (k : Nat) (h : Hit Text) : Number :=
  match shownNumber? (nearest? text h.start) with
  | some shown => .shown shown
  | none => .counted (base + k)

theorem number_recordOf (base : Int) (text : Text) (earlier : List (Hit Text)) (h : Hit Text) :
    (recordOf base text earlier h).number =
      numberAt base text (earlier.countP fun e => category text e == category text h) h := by
  unfold recordOf numberOf numberAt
  generalize nearest? text h.start = marker
  rfl

theorem number_recordOf_eq_counted_iff {n : Int} :
    (recordOf base text earlier h).number = .counted n ↔
      shownNumber? (nearest? text h.start) = none ∧
        base + (earlier.countP fun e => category text e == category text h : Nat) = n := by
  rw [number_recordOf]
  unfold numberAt
  generalize shownNumber? (nearest? text h.start) = shown?
  cases shown? with
  | none => simp
  | some shown => simp

theorem number_recordOf_eq_shown_iff {shown : Text} :
    (recordOf base text earlier h).number = .shown shown ↔
      shownNumber? (nearest? text h.start) = some shown := by
  rw [number_recordOf]
  unfold numberAt
  generalize shownNumber? (nearest? text h.start) = shown?
  cases shown? with
  | none => simp
  | some shown' => simp

/-- **The numbers of one category** are counted on, whether or not a label shows one of its own. -/
theorem numbers_recordsFrom (base : Int) (text : Text) (earlier hs : List (Hit Text)) (c : Text) :
    ((recordsFrom base text earlier hs).filter fun r => r.category = c).map (·.number) =
      (hs.filter fun h => category text h = c).mapIdx fun k h =>
        numberAt base text ((earlier.countP fun e => category text e == c) + k) h := by
  induction hs generalizing earlier with
  | nil => rfl
  | cons h hs ih =>
    rw [recordsFrom]
    by_cases hc : category text h = c
    · rw [List.filter_cons_of_pos (by simp [category_recordOf, hc]),
        List.filter_cons_of_pos (by simp [hc]), List.map_cons, List.mapIdx_cons, ih,
        number_recordOf, hc]
      simp only [List.countP_append, List.countP_singleton, hc, beq_self_eq_true, if_true,
        Nat.add_zero, Nat.add_assoc, Nat.add_comm 1]
    · rw [List.filter_cons_of_neg (by simp [category_recordOf, hc]),
        List.filter_cons_of_neg (by simp [hc]), ih]
      simp [List.countP_append, hc]

theorem le_of_mem_recordsFrom {r : Record} (hr : r ∈ recordsFrom base text earlier hs) {n : Int}
    (hn : r.number = .counted n) :
    base + (earlier.countP fun e => category text e == r.category : Nat) ≤ n := by
  induction hs generalizing earlier with
  | nil => cases hr
  | cons h hs ih =>
    rcases List.mem_cons.mp hr with rfl | hr
    · rw [category_recordOf]
      exact Int.le_of_eq (number_recordOf_eq_counted_iff.mp hn).2
    · have := ih hr
      rw [List.countP_append] at this
      omega

/-- No two labels of one category share a count. -/
theorem pairwise_recordsFrom (earlier hs : List (Hit Text)) :
    (recordsFrom base text earlier hs).Pairwise fun r r' =>
      r.category = r'.category → ∀ n, r.number = .counted n → r'.number ≠ .counted n := by
  induction hs generalizing earlier with
  | nil => exact .nil
  | cons h hs ih =>
    refine List.pairwise_cons.mpr ⟨?_, ih _⟩
    intro r hr hcategory n hn hn'
    have hle := le_of_mem_recordsFrom hr hn'
    have heq := (number_recordOf_eq_counted_iff.mp hn).2
    rw [category_recordOf] at hcategory
    rw [List.countP_append, ← hcategory] at hle
    simp at hle
    omega

/-- **Which labels are reported**: those behind another label of their name. -/
theorem duplicatesFrom_eq (hsorted : (earlier ++ hs).Pairwise fun a b => a.start < b.start) :
    duplicatesFrom earlier hs = (hs.filter fun h => ∃ e ∈ earlier ++ hs,
      e.start < h.start ∧ labelName e = labelName h).map duplicate := by
  induction hs generalizing earlier with
  | nil => rfl
  | cons h hs ih =>
    have hassoc : earlier ++ h :: hs = earlier ++ [h] ++ hs := by simp
    have hfirst : (∃ e ∈ earlier ++ h :: hs, e.start < h.start ∧ labelName e = labelName h) ↔
        ∃ e ∈ earlier, labelName e = labelName h := by
      obtain ⟨-, hbehind, hfront⟩ := List.pairwise_append.mp hsorted
      constructor
      · rintro ⟨e, hmem, hlt, hname⟩
        rcases List.mem_append.mp hmem with hmem | hmem
        · exact ⟨e, hmem, hname⟩
        · rcases List.mem_cons.mp hmem with rfl | hmem
          · exact absurd hlt (Nat.lt_irrefl _)
          · have := (List.pairwise_cons.mp hbehind).1 e hmem
            omega
      · rintro ⟨e, hmem, hname⟩
        exact ⟨e, List.mem_append_left _ hmem, hfront e hmem h List.mem_cons_self, hname⟩
    rw [duplicatesFrom, ih (hassoc ▸ hsorted), ← hassoc]
    by_cases hname : ∃ e ∈ earlier, labelName e = labelName h
    · rw [if_pos hname, List.filter_cons_of_pos (by simpa using hfirst.mpr hname)]
      rfl
    · rw [if_neg hname, List.filter_cons_of_neg (by simpa using mt hfirst.mp hname)]
      rfl

theorem forall₂_recordsFrom (earlier hs : List (Hit Text)) :
    List.Forall₂ (fun h r => r.label = Text.strip h.value ∧
      ⟨r.category, r.name?⟩ = classify text h.start ∧
      ∀ shown, r.number = .shown shown ↔ shownNumber? (nearest? text h.start) = some shown)
      hs (recordsFrom base text earlier hs) := by
  induction hs generalizing earlier with
  | nil => exact .nil
  | cons h hs ih =>
    exact .cons ⟨label_recordOf, subject_recordOf, fun _ => number_recordOf_eq_shown_iff⟩ (ih _)

/-- The **numbering** of the labels of a text: the record of each of them. -/
structure Numbering (base : Int) (text : Text) (labels : List (Hit Text))
    (records : List Record) : Prop where
  each : List.Forall₂ (fun h r => r.label = Text.strip h.value ∧
    ⟨r.category, r.name?⟩ = classify text h.start ∧
    ∀ shown, r.number = .shown shown ↔ shownNumber? (nearest? text h.start) = some shown)
    labels records
  /-- Each category is counted on its own, and a label that shows a number is counted as well. -/
  numbers : ∀ c, (records.filter fun r => r.category = c).map (·.number) =
    (labels.filter fun h => category text h = c).mapIdx fun k h => numberAt base text k h
  distinct : records.Pairwise fun r r' =>
    r.category = r'.category → ∀ n, r.number = .counted n → r'.number ≠ .counted n

theorem numbering_recordsFrom (base : Int) (text : Text) :
    Numbering base text (found text) (recordsFrom base text [] (found text)) := by
  refine ⟨forall₂_recordsFrom [] _, ?_, pairwise_recordsFrom [] _⟩
  intro c
  have hnumbers := numbers_recordsFrom base text [] (found text) c
  simp only [List.countP_nil, Nat.zero_add] at hnumbers
  exact hnumbers

theorem duplicatesFrom_found (text : Text) : duplicatesFrom [] (found text) =
    ((found text).filter fun h => ∃ e ∈ found text,
      e.start < h.start ∧ labelName e = labelName h).map duplicate :=
  duplicatesFrom_eq (((Scan.pairwise_hits command text).imp And.right).filter _)

/-- **The collection numbers every label of a text.**  The labels are those that occur in it, in
    their order; each is counted in its category, and the last of each name is recorded; the
    labels behind another one of their name are reported. -/
theorem numbers_of_collect (base : Int) (text : Text) :
    ∃ labels records table,
      (∀ h, h ∈ labels ↔ Scan.Occurs command text h) ∧
      (labels.Pairwise fun a b => a.stop ≤ b.start) ∧
      Numbering base text labels records ∧
      (∀ name, Table.get? table name = (records.filter fun r => r.label = name).getLast?) ∧
      collect base text =
        ⟨(labels.filter fun h => ∃ e ∈ labels,
            e.start < h.start ∧ Text.strip e.value = Text.strip h.value).map fun h =>
              ⟨.duplicateLabel, "Label " ++ Text.quoted (Text.strip h.value) ++
                " defined more than once; the later one wins", h.start⟩,
          .ok table⟩ := by
  refine ⟨found text, recordsFrom base text [] (found text), _, fun h => mem_found_iff,
    pairwise_found text, numbering_recordsFrom base text, get?_tableOf _, ?_⟩
  rw [collect_eq, duplicatesFrom_found]
  rfl

end Label

end TexMark
