/-
  TexMark/Proofs/Theorem/LeadIn.lean
  ==================================
  **The lead-in of an instance.**  The first body line of a callout begins with the heading
  of its kind, a blank, the number and a point.  A reader takes these words for the lead-in
  again, and finds exactly the number that was written (`leadNumber?_append`): no blank of
  the heading has a closed number behind it, for digits of a heading are followed by a word
  character or by a blank and never by a point, and behind the number that was written the
  digits do not go on.

  Of the line in front of it, the head, a reader finds the name and the title
  (`head?_eq_some_iff`, `head?_headLine`).
-/
import TexMark.Proofs.Lines
import TexMark.Proofs.Readers

namespace TexMark.Callout

open Text (isDecimal isWord isAsciiUpper isAsciiLetter isLineBlank)

/-! ### Headings and numbers -/

def IsHeading (t : Text) : Prop :=
  (∃ c ∈ t.head?, isAsciiUpper c) ∧ ∀ c ∈ t, isWord c ∨ c = ' '

/-- Groups of digits with points between them. -/
def IsNumber (t : Text) : Prop := ∀ g ∈ Text.splitOn '.' t, g ≠ [] ∧ ∀ c ∈ g, isDecimal c

instance decidableIsHeading (t : Text) : Decidable (IsHeading t) :=
  decidable_of_iff (t.head?.any isAsciiUpper && t.all fun c => isWord c || c == ' ') (by
    cases t <;> simp [IsHeading])

instance decidableIsNumber (t : Text) : Decidable (IsNumber t) :=
  decidable_of_iff ((Text.splitOn '.' t).all fun g => !g.isEmpty && g.all isDecimal)
    (by simp [IsNumber])

/-- A number is a group of digits, and further groups behind a point each. -/
theorem IsNumber.exists_groups {t : Text} (h : IsNumber t) : ∃ g gs,
    t = g ++ (gs.map ('.' :: ·)).flatten ∧ ∀ g' ∈ g :: gs, g' ≠ [] ∧ ∀ c ∈ g', isDecimal c := by
  obtain ⟨g, gs, hgs⟩ := List.exists_cons_of_ne_nil (Text.splitOn_ne_nil '.' t)
  refine ⟨g, gs, ?_, ?_⟩
  · have hjoin := Text.join_splitOn '.' t
    rw [hgs, Text.join_cons] at hjoin
    rw [← hjoin, List.flatMap_def]
    rfl
  · unfold IsNumber at h
    rwa [hgs] at h

theorem isNumber_of_groups {g : Text} {gs : List Text}
    (h : ∀ g' ∈ g :: gs, g' ≠ [] ∧ ∀ c ∈ g', isDecimal c) :
    IsNumber (g ++ (gs.map ('.' :: ·)).flatten) := by
  have hpoint : ∀ g' ∈ g :: gs, '.' ∉ g' := by
    intro g' hg' hmem
    have := (h g' hg').2 '.' hmem
    revert this
    decide
  have hsplit : Text.splitOn '.' (g ++ (gs.map ('.' :: ·)).flatten) = g :: gs := by
    clear h
    induction gs generalizing g with
    | nil =>
      rw [List.map_nil, List.flatten_nil, List.append_nil]
      exact Text.splitOn_of_not_mem (hpoint g List.mem_cons_self)
    | cons g' gs ih =>
      rw [List.map_cons, List.flatten_cons, List.cons_append,
        Text.splitOn_append (hpoint g List.mem_cons_self),
        ih fun g'' hg'' => hpoint g'' (List.mem_cons_of_mem g hg'')]
  unfold IsNumber
  rwa [hsplit]

/-! ### Reading the number -/

theorem digitRun_append {g : Text} (hg : ∀ c ∈ g, isDecimal c) {t : Text}
    (ht : ∀ c ∈ t.head?, ¬ isDecimal c) : digitRun (g ++ t) = g := by
  have hstop : t.takeWhile isDecimal = [] := by
    cases t with
    | nil => rfl
    | cons c t => exact List.takeWhile_cons_of_neg (ht c rfl)
  rw [digitRun, List.takeWhile_append_of_pos hg, hstop, List.append_nil]

theorem isDecimal_of_mem_digitRun {t : Text} {c : Char} (hc : c ∈ digitRun t) : isDecimal c :=
  List.mem_takeWhile_imp hc

theorem exists_digitRun (t : Text) :
    ∃ rest, t = digitRun t ++ rest ∧ ∀ c ∈ rest.head?, ¬ isDecimal c :=
  ⟨t.dropWhile isDecimal, List.takeWhile_append_dropWhile.symm,
    fun _ hc => Text.head?_dropWhile hc⟩

theorem pointGroups_skip (u t : Text) : pointGroups u.length (u ++ t) = pointGroups 0 t := by
  induction u with
  | nil => rfl
  | cons c u ih => exact ih

theorem pointGroups_eq_nil {t : Text} (ht : ∀ u, t = '.' :: u → digitRun u = []) :
    pointGroups 0 t = [] := by
  cases t with
  | nil => rfl
  | cons c u =>
    rw [pointGroups, if_neg]
    intro h
    simp only [Bool.and_eq_true, beq_iff_eq] at h
    rw [h.1] at ht
    simp [ht u rfl] at h

/-- Behind a group of digits the digits do not go on. -/
theorem not_isDecimal_head?_groups (gs : List Text) {t : Text}
    (ht : ∀ c ∈ t.head?, ¬ isDecimal c) :
    ∀ c ∈ ((gs.map ('.' :: ·)).flatten ++ t).head?, ¬ isDecimal c := by
  cases gs with
  | nil => exact ht
  | cons g gs =>
    intro c hc
    cases hc
    decide

theorem pointGroups_append {gs : List Text} (hgs : ∀ g ∈ gs, g ≠ [] ∧ ∀ c ∈ g, isDecimal c)
    {t : Text} (ht : ∀ c ∈ t.head?, ¬ isDecimal c) (hpoint : pointGroups 0 t = []) :
    pointGroups 0 ((gs.map ('.' :: ·)).flatten ++ t) = gs.map ('.' :: ·) := by
  induction gs with
  | nil => exact hpoint
  | cons g gs ih =>
    obtain ⟨hne, hg⟩ := hgs g List.mem_cons_self
    have hnext := not_isDecimal_head?_groups gs ht
    have hfilled : ((('.' == '.') && !g.isEmpty) = true) := by simpa using hne
    rw [List.map_cons, List.flatten_cons, List.cons_append, List.cons_append, List.append_assoc,
      pointGroups, digitRun_append hg hnext, if_pos hfilled, pointGroups_skip,
      ih fun g' hg' => hgs g' (List.mem_cons_of_mem g hg')]

theorem exists_pointGroups (t : Text) : ∃ gs rest, pointGroups 0 t = gs.map ('.' :: ·) ∧
    t = (gs.map ('.' :: ·)).flatten ++ rest ∧ (∀ g ∈ gs, g ≠ [] ∧ ∀ c ∈ g, isDecimal c) ∧
    (gs ≠ [] → ∀ c ∈ rest.head?, ¬ isDecimal c) ∧ ∀ u, rest = '.' :: u → digitRun u = [] := by
  cases t with
  | nil => exact ⟨[], [], rfl, rfl, nofun, nofun, nofun⟩
  | cons c t =>
    by_cases hgroup : (c == '.' && !(digitRun t).isEmpty) = true
    · obtain ⟨after, ht, hafter⟩ := exists_digitRun t
      obtain ⟨gs, rest, hgs, hrest, hall, hstop, hmore⟩ := exists_pointGroups after
      have hskip : pointGroups (digitRun t).length t = pointGroups 0 after := by
        have := pointGroups_skip (digitRun t) after
        rwa [← ht] at this
      have hpoint : c = '.' ∧ digitRun t ≠ [] := by simpa using hgroup
      refine ⟨digitRun t :: gs, rest, ?_, ?_, ?_, fun _ => ?_, hmore⟩
      · rw [pointGroups, if_pos hgroup, hskip, hgs, List.map_cons]
      · rw [List.map_cons, List.flatten_cons, List.cons_append, List.cons_append, List.append_assoc,
          ← hrest, ← ht, hpoint.1]
      · exact List.forall_mem_cons.mpr ⟨⟨hpoint.2, fun _ => isDecimal_of_mem_digitRun⟩, hall⟩
      · cases gs with
        | nil =>
          rw [hrest] at hafter
          exact hafter
        | cons g gs => exact hstop (List.cons_ne_nil g gs)
    · refine ⟨[], c :: t, by rw [pointGroups, if_neg hgroup]; rfl, rfl, nofun, nofun, ?_⟩
      intro u hu
      cases hu
      simpa using hgroup
termination_by t.length
decreasing_by
  rw [ht]
  simp only [List.length_cons, List.length_append]
  omega

/-- A number that stands in front of a text with a point between them has **ended**: it does not
    go on with digits that another point closes. -/
def Ended (rest : Text) : Prop :=
  ∀ digits after, rest = digits ++ '.' :: after → (∀ c ∈ digits, isDecimal c) → digits = []

theorem ended_of_head {t : Text} (ht : ∀ c ∈ t.head?, ¬ isDecimal c) : Ended t := by
  rintro digits after rfl hdigits
  cases digits with
  | nil => rfl
  | cons c digits => exact absurd (hdigits c List.mem_cons_self) (ht c rfl)

theorem groups_append {g : Text} {gs : List Text}
    (hgs : ∀ g' ∈ g :: gs, g' ≠ [] ∧ ∀ c ∈ g', isDecimal c) {t : Text}
    (ht : ∀ c ∈ t.head?, ¬ isDecimal c) (hpoint : pointGroups 0 t = []) :
    digitRun (g ++ (gs.map ('.' :: ·)).flatten ++ t) = g ∧
      pointGroups 0 ((g ++ (gs.map ('.' :: ·)).flatten ++ t).drop g.length) =
        gs.map ('.' :: ·) := by
  rw [List.append_assoc, List.drop_left]
  exact ⟨digitRun_append (hgs g List.mem_cons_self).2 (not_isDecimal_head?_groups gs ht),
    pointGroups_append (fun g' hg' => hgs g' (List.mem_cons_of_mem g hg')) ht hpoint⟩

/-- With a point behind the groups, all of them are taken. -/
theorem closedNumber?_of_point {g : Text} {gs : List Text}
    (hgs : ∀ g' ∈ g :: gs, g' ≠ [] ∧ ∀ c ∈ g', isDecimal c) {rest : Text}
    (hrest : digitRun rest = []) :
    closedNumber? (g ++ (gs.map ('.' :: ·)).flatten ++ '.' :: rest) =
      some (g ++ (gs.map ('.' :: ·)).flatten, rest) := by
  have hne : g.isEmpty = false := by simpa using (hgs g List.mem_cons_self).1
  have hpoint : pointGroups 0 ('.' :: rest) = [] := by
    apply pointGroups_eq_nil
    intro u hu
    cases hu
    exact hrest
  obtain ⟨hrun, hgroups⟩ := groups_append hgs (t := '.' :: rest) (by rintro c ⟨⟩; decide) hpoint
  simp only [closedNumber?, hrun, hgroups, hne, List.drop_left, Bool.false_eq_true, if_false]

/-- A single group is no closed number if there is no point behind it. -/
theorem closedNumber?_of_single {g t : Text} (hg : ∀ c ∈ g, isDecimal c)
    (ht : ∀ c ∈ t.head?, ¬ isDecimal c) (hnone : ∀ u, t ≠ '.' :: u) :
    closedNumber? (g ++ t) = none := by
  have hgroups : pointGroups 0 t = [] := pointGroups_eq_nil fun u hu => absurd hu (hnone u)
  simp only [closedNumber?, digitRun_append hg ht, List.drop_left, hgroups, List.flatten_nil,
    List.append_nil]
  split
  · rfl
  · exact if_pos rfl

/-- Without a point behind the groups, the last one is given back. -/
theorem closedNumber?_of_last {g d : Text} {gs : List Text}
    (hgs : ∀ g' ∈ g :: (gs ++ [d]), g' ≠ [] ∧ ∀ c ∈ g', isDecimal c) {t : Text}
    (ht : ∀ c ∈ t.head?, ¬ isDecimal c) (hnone : ∀ u, t ≠ '.' :: u) :
    closedNumber? (g ++ (gs.map ('.' :: ·)).flatten ++ '.' :: (d ++ t)) =
      some (g ++ (gs.map ('.' :: ·)).flatten, d ++ t) := by
  have hne : g.isEmpty = false := by simpa using (hgs g List.mem_cons_self).1
  obtain ⟨hrun, hgroups⟩ := groups_append hgs ht
    (pointGroups_eq_nil fun u hu => absurd hu (hnone u))
  have hwritten : g ++ ((gs ++ [d]).map ('.' :: ·)).flatten ++ t =
      g ++ (gs.map ('.' :: ·)).flatten ++ '.' :: (d ++ t) := by
    simp
  rw [hwritten] at hrun hgroups
  have hbehind : (g ++ (gs.map ('.' :: ·)).flatten ++ '.' :: (d ++ t)).drop
      (g ++ ((gs ++ [d]).map ('.' :: ·)).flatten).length = t := by
    rw [← hwritten, List.drop_left]
  have hgiven : (g ++ (gs.map ('.' :: ·)).flatten ++ '.' :: (d ++ t)).drop
      ((g ++ (gs.map ('.' :: ·)).flatten).length + 1) = d ++ t := by
    rw [← List.drop_drop, List.drop_left]
    rfl
  simp only [closedNumber?, hrun, hgroups, hne, hbehind, Bool.false_eq_true, if_false]
  rw [if_neg (by simp), List.map_append, List.map_cons, List.map_nil, List.dropLast_concat, hgiven]

theorem ended_of_digitRun {t : Text} (ht : digitRun t = []) : Ended t := by
  refine ended_of_head fun c hc hdecimal => ?_
  obtain ⟨u, rfl⟩ := List.head?_eq_some_iff.mp hc
  simp [digitRun, hdecimal] at ht

/-- Digits have ended if what follows them is neither a digit nor a point. -/
theorem ended_append {d t : Text} (hd : ∀ c ∈ d, isDecimal c)
    (ht : ∀ c ∈ t.head?, ¬ isDecimal c) (hnone : ∀ u, t ≠ '.' :: u) : Ended (d ++ t) := by
  intro digits u hu hdigits
  have hrun := digitRun_append hd ht
  rw [hu, digitRun_append hdigits (by rintro c ⟨⟩; decide)] at hrun
  subst hrun
  exact absurd (List.append_cancel_left hu) (hnone u)

theorem closed_of_closedNumber? {t number rest : Text}
    (h : closedNumber? t = some (number, rest)) :
    IsNumber number ∧ t = number ++ '.' :: rest ∧ Ended rest := by
  obtain ⟨after, ht, hafter⟩ := exists_digitRun t
  obtain ⟨gs, last, -, rfl, hgs, hstop, hpoint⟩ := exists_pointGroups after
  have hdigits : ∀ c ∈ digitRun t, isDecimal c := fun _ => isDecimal_of_mem_digitRun
  generalize hg : digitRun t = g at ht hdigits
  have hne : g ≠ [] := by
    rintro rfl
    simp [closedNumber?, hg] at h
  have hall : ∀ g' ∈ g :: gs, g' ≠ [] ∧ ∀ c ∈ g', isDecimal c :=
    List.forall_mem_cons.mpr ⟨⟨hne, hdigits⟩, hgs⟩
  rw [← List.append_assoc] at ht
  subst ht
  by_cases hlast : ∃ u, last = '.' :: u
  · obtain ⟨u, rfl⟩ := hlast
    rw [closedNumber?_of_point hall (hpoint u rfl)] at h
    cases h
    exact ⟨isNumber_of_groups hall, rfl, ended_of_digitRun (hpoint _ rfl)⟩
  · have hnone := not_exists.mp hlast
    rcases List.eq_nil_or_concat gs with rfl | ⟨init, d, rfl⟩
    · have hlast : ∀ c ∈ last.head?, ¬ isDecimal c := hafter
      rw [List.map_nil, List.flatten_nil, List.append_nil,
        closedNumber?_of_single hdigits hlast hnone] at h
      cases h
    · rw [List.concat_eq_append] at *
      have hstop := hstop (by simp)
      have hwritten : g ++ ((init ++ [d]).map ('.' :: ·)).flatten ++ last =
          g ++ (init.map ('.' :: ·)).flatten ++ '.' :: (d ++ last) := by
        simp
      rw [hwritten, closedNumber?_of_last hall hstop hnone] at h
      cases h
      have hd := hgs d (by simp)
      refine ⟨isNumber_of_groups fun g' hg' => hall g' ?_, hwritten, ended_append hd.2 hstop hnone⟩
      rw [← List.cons_append]
      exact List.mem_append_left _ hg'

theorem closedNumber?_of_closed {number rest : Text} (hnumber : IsNumber number)
    (hended : Ended rest) : closedNumber? (number ++ '.' :: rest) = some (number, rest) := by
  obtain ⟨g, gs, rfl, hgs⟩ := hnumber.exists_groups
  obtain ⟨last, hlast, hstop⟩ := exists_digitRun rest
  by_cases hnil : digitRun rest = []
  · exact closedNumber?_of_point hgs hnil
  · -- the digits behind the point are a group that is given back
    have hnone : ∀ u, last ≠ '.' :: u := by
      rintro u rfl
      exact hnil (hended _ u hlast fun _ => isDecimal_of_mem_digitRun)
    have hall : ∀ g' ∈ g :: (gs ++ [digitRun rest]), g' ≠ [] ∧ ∀ c ∈ g', isDecimal c := by
      intro g' hg'
      rw [← List.cons_append] at hg'
      rcases List.mem_append.mp hg' with hg' | hg'
      · exact hgs g' hg'
      · rw [List.mem_singleton.mp hg']
        exact ⟨hnil, fun _ => isDecimal_of_mem_digitRun⟩
    have hread := closedNumber?_of_last hall hstop hnone
    rwa [← hlast] at hread

/-- **What is read as a closed number**: a number and the point behind it, if it has ended there.
    A last group without a point is given back. -/
theorem closedNumber?_eq_some_iff {t number rest : Text} :
    closedNumber? t = some (number, rest) ↔
      IsNumber number ∧ t = number ++ '.' :: rest ∧ Ended rest := by
  refine ⟨closed_of_closedNumber?, ?_⟩
  rintro ⟨hnumber, rfl, hended⟩
  exact closedNumber?_of_closed hnumber hended

theorem closedNumber?_eq_none {t : Text} (h : (t.dropWhile isDecimal).head? ≠ some '.') :
    closedNumber? t = none := by
  cases hread : closedNumber? t with
  | none => rfl
  | some found =>
    obtain ⟨hnumber, rfl, -⟩ := closedNumber?_eq_some_iff.mp hread
    obtain ⟨g, gs, hwritten, hgs⟩ := hnumber.exists_groups
    rw [hwritten, List.append_assoc,
      List.dropWhile_append_of_pos (hgs g List.mem_cons_self).2] at h
    cases gs with
    | nil => exact absurd rfl h
    | cons g' gs => exact absurd rfl h

/-! ### Reading the words in front of the number -/

theorem head?_dropWhile_append_ne {w : Text} (hw : ∀ c ∈ w, isWord c ∨ c = ' ') (t : Text) :
    ((w ++ ' ' :: t).dropWhile isDecimal).head? ≠ some '.' := by
  induction w with
  | nil =>
    have hblank : isDecimal ' ' = false := by decide
    simp [hblank]
  | cons c w ih =>
    by_cases hc : isDecimal c
    · rw [List.cons_append, List.dropWhile_cons_of_pos hc]
      exact ih fun d hd => hw d (List.mem_cons_of_mem c hd)
    · rw [List.cons_append, List.dropWhile_cons_of_neg hc]
      intro hpoint
      cases hpoint
      have := hw '.' List.mem_cons_self
      revert this
      decide

/-- **What is read behind the words of a heading**: words and blanks, a blank, and a closed number. -/
theorem numberBehind?_eq_some_iff {t : Text} {found : Text × Text} :
    numberBehind? t = some found ↔ ∃ w u, (∀ c ∈ w, isWord c ∨ c = ' ') ∧ t = w ++ ' ' :: u ∧
      closedNumber? u = some found := by
  constructor
  · intro h
    induction t with
    | nil => cases h
    | cons c t ih =>
      rw [numberBehind?] at h
      split at h
      · rename_i found' hfound
        cases h
        split at hfound
        · rename_i hc
          exact ⟨[], t, nofun, by rw [beq_iff_eq.mp hc]; rfl, hfound⟩
        · cases hfound
      · split at h
        · rename_i hc
          obtain ⟨w, u, hw, rfl, hu⟩ := ih h
          exact ⟨c :: w, u, List.forall_mem_cons.mpr ⟨by simpa using hc, hw⟩, rfl, hu⟩
        · cases h
  · rintro ⟨w, u, hw, rfl, hu⟩
    induction w with
    | nil => simp [numberBehind?, hu]
    | cons c w ih =>
      have hw' : ∀ d ∈ w, isWord d ∨ d = ' ' := fun d hd => hw d (List.mem_cons_of_mem c hd)
      have hnone : closedNumber? (w ++ ' ' :: u) = none :=
        closedNumber?_eq_none (head?_dropWhile_append_ne hw' u)
      have hinside : (isWord c || c == ' ') = true := by simpa using hw c List.mem_cons_self
      simp only [List.cons_append, numberBehind?, hnone, ite_self, hinside, if_true]
      exact ih hw'

theorem isWord_of_isAsciiUpper {c : Char} (h : isAsciiUpper c) : isWord c := by
  have hrange : 65 ≤ c.toNat ∧ c.toNat ≤ 90 := by
    simpa [isAsciiUpper, Char.le_def, UInt32.le_iff_toNat_le] using h
  have hletter : Text.isLetter c := by
    rw [Text.isLetter, if_pos (by omega)]
    have hupper : c.isUpper := by
      rw [isAsciiUpper, Bool.and_eq_true, decide_eq_true_eq, decide_eq_true_eq] at h
      exact decide_eq_true h
    have halpha : isAsciiLetter c = (c.isUpper || c.isLower) := rfl
    rw [halpha, hupper, Bool.true_or]
  simp [isWord, hletter]

/-- A line **leads in**: a heading, a blank, and a number closed by a point, as long as it goes
    on. -/
structure LeadsIn (line heading number rest : Text) : Prop where
  isHeading : IsHeading heading
  isNumber : IsNumber number
  eq : line = heading ++ ' ' :: (number ++ '.' :: rest)
  ended : Ended rest

/-- **What is read as a lead-in** is a lead-in, and its number is read as it was written. -/
theorem leadNumber?_eq_some_iff {line number rest : Text} :
    leadNumber? line = some (number, rest) ↔ ∃ heading, LeadsIn line heading number rest := by
  constructor
  · intro h
    cases line with
    | nil => cases h
    | cons c t =>
      rw [leadNumber?] at h
      split at h
      · rename_i hc
        obtain ⟨w, u, hw, rfl, hu⟩ := numberBehind?_eq_some_iff.mp h
        obtain ⟨hnumber, rfl, hended⟩ := closedNumber?_eq_some_iff.mp hu
        have hwords : ∀ d ∈ c :: w, isWord d ∨ d = ' ' :=
          List.forall_mem_cons.mpr ⟨.inl (isWord_of_isAsciiUpper hc), hw⟩
        exact ⟨c :: w, ⟨⟨c, rfl, hc⟩, hwords⟩, hnumber, rfl, hended⟩
      · cases h
  · rintro ⟨heading, ⟨⟨c, hc, hupper⟩, hwords⟩, hnumber, rfl, hended⟩
    cases heading with
    | nil => cases hc
    | cons d w =>
      cases hc
      rw [List.cons_append, leadNumber?, if_pos hupper]
      exact numberBehind?_eq_some_iff.mpr ⟨w, _, fun d hd => hwords d (List.mem_cons_of_mem c hd),
        rfl, closedNumber?_eq_some_iff.mpr ⟨hnumber, rfl, hended⟩⟩

theorem leadNumber?_append {heading number : Text} (hheading : IsHeading heading)
    (hnumber : IsNumber number) {t : Text} (ht : ∀ c ∈ t.head?, ¬ isDecimal c) :
    leadNumber? (heading ++ ' ' :: (number ++ '.' :: t)) = some (number, t) :=
  leadNumber?_eq_some_iff.mpr ⟨heading, hheading, hnumber, rfl, ended_of_head ht⟩

/-! ### What a reader of lead-ins takes -/

/-- What has been taken from the head of a text, up to `rest`, lies on one line. -/
def TakenFromLine (t rest : Text) : Prop := ∃ w, t = w ++ rest ∧ '\n' ∉ w

theorem TakenFromLine.trans {t middle rest : Text} (h : TakenFromLine t middle)
    (hrest : TakenFromLine middle rest) : TakenFromLine t rest := by
  obtain ⟨w, rfl, hw⟩ := h
  obtain ⟨w', rfl, hw'⟩ := hrest
  exact ⟨w ++ w', by simp, by simp [hw, hw']⟩

/-- Of a heading and a number one knows of what characters they are made. -/
theorem not_mem_heading_number {heading number : Text} (hheading : IsHeading heading)
    (hnumber : IsNumber number) {c : Char} (hword : isWord c = false) (hdigit : isDecimal c = false)
    (hblank : c ≠ ' ') (hpoint : c ≠ '.') : c ∉ heading ∧ c ∉ number := by
  obtain ⟨g, gs, rfl, hgs⟩ := hnumber.exists_groups
  have hgroup : ∀ g' ∈ g :: gs, c ∉ g' := by
    intro g' hg' hmem
    have := (hgs g' hg').2 c hmem
    rw [hdigit] at this
    cases this
  constructor
  · intro hmem
    rcases hheading.2 c hmem with h | h
    · rw [hword] at h
      cases h
    · exact hblank h
  · intro hmem
    simp only [List.mem_append, List.mem_flatten, List.mem_map] at hmem
    rcases hmem with hmem | ⟨_, ⟨g', hg', rfl⟩, hmem⟩
    · exact hgroup g List.mem_cons_self hmem
    · rcases List.mem_cons.mp hmem with rfl | hmem
      · exact hpoint rfl
      · exact hgroup g' (List.mem_cons_of_mem g hg') hmem

theorem takenFromLine_leadNumber? {t number rest : Text}
    (h : leadNumber? t = some (number, rest)) : TakenFromLine t rest := by
  obtain ⟨heading, hheading, hnumber, rfl, -⟩ := leadNumber?_eq_some_iff.mp h
  obtain ⟨hwords, hdigits⟩ := not_mem_heading_number hheading hnumber (c := '\n') (by decide)
    (by decide) (by decide) (by decide)
  exact ⟨heading ++ ' ' :: (number ++ ['.']), by simp, by simp [hwords, hdigits]⟩

/-! ### The head -/

/-- The mark of a callout as it may be written: `>`, a blank perhaps, and the name between
    `[!` and `]`. -/
def IsMark (name mark : Text) : Prop :=
  ∃ gap, (gap = [] ∨ ∃ c, isLineBlank c ∧ gap = [c]) ∧ name ≠ [] ∧ (∀ c ∈ name, isAsciiLetter c) ∧
    mark = '>' :: (gap ++ '[' :: '!' :: (name ++ [']']))

def unfolded (t : Text) : Text :=
  match t with
  | c :: rest => if c == '+' || c == '-' then rest else t
  | [] => []

theorem head?_mark {name mark : Text} (h : IsMark name mark) (rest : Text) :
    head? (mark ++ rest) = some (name, (unfolded rest).dropWhile isLineBlank) := by
  obtain ⟨gap, hgap, hne, hname, rfl⟩ := h
  have hclosed : isAsciiLetter ']' = false := by decide
  have hopened : isLineBlank '[' = false := by decide
  have hrun : Markup.run isAsciiLetter (name ++ ']' :: rest) = (name, ']' :: rest) := by
    rw [Markup.run, List.takeWhile_append_of_pos hname, List.dropWhile_append_of_pos hname]
    simp [hclosed]
  rcases hgap with rfl | ⟨c, hc, rfl⟩
  · simp [head?, Markup.char?, hopened, hrun, hne]
    cases rest <;> simp [unfolded]
  · simp [head?, Markup.char?, hc, hrun, hne]
    cases rest <;> simp [unfolded]

/-- **What is read as a head**: a mark, and behind the sign that may fold the callout and the
    blanks there, the title. -/
theorem head?_eq_some_iff {line name title : Text} : head? line = some (name, title) ↔
    ∃ mark rest, IsMark name mark ∧ line = mark ++ rest ∧
      title = (unfolded rest).dropWhile isLineBlank := by
  constructor
  · intro h
    simp only [head?, Option.bind_eq_bind, Option.pure_def, Option.bind_eq_some_iff,
      Markup.char?_eq_some_iff, Markup.run] at h
    obtain ⟨quoted, rfl, opened, hopened, marked, rfl, h⟩ := h
    have hgap : ∃ gap, (gap = [] ∨ ∃ c, isLineBlank c ∧ gap = [c]) ∧
        quoted = gap ++ '[' :: '!' :: marked := by
      cases quoted with
      | nil => cases hopened
      | cons c quoted =>
        by_cases hc : isLineBlank c
        · simp only [hc, if_true] at hopened
          exact ⟨[c], .inr ⟨c, hc, rfl⟩, by rw [hopened]; rfl⟩
        · simp only [hc] at hopened
          exact ⟨[], .inl rfl, hopened⟩
    obtain ⟨gap, hgap, rfl⟩ := hgap
    by_cases hname : (marked.takeWhile isAsciiLetter).isEmpty
    · simp only [hname, if_true] at h
      cases h
    · simp only [hname] at h
      obtain ⟨closed, hclosed, hpair⟩ := Option.bind_eq_some_iff.mp h
      rw [Markup.char?_eq_some_iff] at hclosed
      have hmarked : marked = marked.takeWhile isAsciiLetter ++ ']' :: closed := by
        rw [← hclosed, List.takeWhile_append_dropWhile]
      cases hpair
      refine ⟨'>' :: (gap ++ '[' :: '!' :: (marked.takeWhile isAsciiLetter ++ [']'])), closed,
        ⟨gap, hgap, by simpa using hname, fun c hc => List.mem_takeWhile_imp hc, rfl⟩, ?_, ?_⟩
      · conv_lhs => rw [hmarked]
        simp
      · cases closed <;> rfl
  · rintro ⟨mark, rest, hmark, rfl, rfl⟩
    exact head?_mark hmark rest

theorem takenFromLine_head? {line name title : Text} (h : head? line = some (name, title)) :
    line.head? = some '>' ∧ TakenFromLine line title := by
  obtain ⟨mark, rest, ⟨gap, hgap, -, hname, rfl⟩, rfl, rfl⟩ := head?_eq_some_iff.mp h
  have hletter : '\n' ∉ name := by
    intro hmem
    have := hname _ hmem
    revert this
    decide
  have hblank : ¬ isLineBlank '\n' := by decide
  have hmark : TakenFromLine ('>' :: (gap ++ '[' :: '!' :: (name ++ [']'])) ++ rest) rest := by
    refine ⟨_, rfl, ?_⟩
    rcases hgap with rfl | ⟨c, hc, rfl⟩
    · simpa using hletter
    · have hc' : '\n' ≠ c := by
        rintro rfl
        exact hblank hc
      simp [hc', hletter]
  have hsign : TakenFromLine rest (unfolded rest) := by
    cases rest with
    | nil => exact ⟨[], rfl, List.not_mem_nil⟩
    | cons c rest =>
      by_cases hsign : (c == '+' || c == '-') = true
      · refine ⟨[c], by simp only [unfolded, if_pos hsign]; rfl, ?_⟩
        rw [List.mem_singleton]
        rintro rfl
        revert hsign
        decide
      · exact ⟨[], by simp only [unfolded, if_neg hsign]; rfl, List.not_mem_nil⟩
  have hgap' : TakenFromLine (unfolded rest) ((unfolded rest).dropWhile isLineBlank) :=
    ⟨_, List.takeWhile_append_dropWhile.symm, fun hmem => hblank (List.mem_takeWhile_imp hmem)⟩
  exact ⟨rfl, hmark.trans (hsign.trans hgap')⟩

/-- A theorem without a declaration is written under its own name. -/
theorem nameFor_of_mem {environment : Text} (h : environment ∈ defaultNames) :
    nameFor environment = environment := if_pos (List.contains_iff_mem.mpr h)

theorem nameFor_spec (environment : Text) :
    nameFor environment ≠ [] ∧ ∀ c ∈ nameFor environment, isAsciiLetter c := by
  have hall : (fallback :: defaultNames).all fun name => !name.isEmpty && name.all isAsciiLetter := by
    decide
  have hnames : ∀ name ∈ fallback :: defaultNames, name ≠ [] ∧ ∀ c ∈ name, isAsciiLetter c := by
    intro name hname
    simpa using List.all_eq_true.mp hall name hname
  apply hnames
  unfold nameFor
  split
  · rename_i hmem
    exact List.mem_cons_of_mem _ (List.contains_iff_mem.mp hmem)
  · exact List.mem_cons_self

def shownTitle (title? : Option Text) : Text := Text.strip (title?.getD [])

theorem dropWhile_isLineBlank_eq_self {t : Text} (ht : ∀ c ∈ t.head?, ¬ isLineBlank c) :
    t.dropWhile isLineBlank = t := by
  cases t with
  | nil => rfl
  | cons c t => exact List.dropWhile_cons_of_neg (ht c rfl)

theorem isBlank_of_isLineBlank {c : Char} (h : isLineBlank c) : Text.isBlank c := by
  have hc : c = ' ' ∨ c = '\t' := by simpa [isLineBlank] using h
  rcases hc with rfl | rfl <;> decide

/-- **A head line is read as it was written**, at the end of its line. -/
theorem head?_headLine (environment : Text) (title? : Option Text) {t : Text}
    (ht : ∀ c ∈ t.head?, c = '\n') :
    head? (headLine (nameFor environment) title? ++ t) =
      some (nameFor environment, shownTitle title? ++ t) := by
  obtain ⟨hne, hletters⟩ := nameFor_spec environment
  have hmark : IsMark (nameFor environment)
      ('>' :: ([' '] ++ '[' :: '!' :: (nameFor environment ++ [']']))) :=
    ⟨[' '], .inr ⟨' ', rfl, rfl⟩, hne, hletters, rfl⟩
  have hstop : ∀ c ∈ t.head?, ¬ isLineBlank c := by
    intro c hc
    rw [ht c hc]
    decide
  by_cases htitle : (title?.getD []).isEmpty
  · have hfolded : unfolded t = t := by
      cases t with
      | nil => rfl
      | cons c t => rw [ht c rfl]; rfl
    have hshown : shownTitle title? = [] := by
      rw [shownTitle, List.isEmpty_iff.mp htitle]
      rfl
    have hread := head?_mark hmark t
    rw [hfolded, dropWhile_isLineBlank_eq_self hstop] at hread
    rw [hshown, List.nil_append, ← hread]
    simp [headLine, htitle]
  · have hread := head?_mark hmark (' ' :: (shownTitle title? ++ t))
    have hfirst : ∀ c ∈ (shownTitle title? ++ t).head?, ¬ isLineBlank c := by
      intro c hc hblank
      cases hs : shownTitle title? with
      | nil =>
        rw [hs] at hc
        exact hstop c hc hblank
      | cons d s =>
        rw [hs] at hc
        cases hc
        exact Text.head?_strip (by rw [← shownTitle, hs]; rfl) (isBlank_of_isLineBlank hblank)
    rw [unfolded, if_neg (by decide), List.dropWhile_cons_of_pos (by decide),
      dropWhile_isLineBlank_eq_self hfirst] at hread
    rw [← hread]
    simp [headLine, htitle, shownTitle]

theorem not_mem_headLine (environment : Text) {title? : Option Text} {c : Char}
    (hletter : isAsciiLetter c = false) (hmark : c ∉ ['>', ' ', '[', '!', ']'])
    (htitle : c ∉ shownTitle title?) : c ∉ headLine (nameFor environment) title? := by
  have hname : c ∉ nameFor environment := by
    intro hmem
    have := (nameFor_spec environment).2 c hmem
    rw [hletter] at this
    cases this
  have hfront : c ∉ '>' :: ' ' :: '[' :: '!' :: (nameFor environment ++ [']']) := by
    simp only [List.mem_cons, List.mem_append, List.not_mem_nil, or_false, not_or] at hmark ⊢
    exact ⟨hmark.1, hmark.2.1, hmark.2.2.1, hmark.2.2.2.1, hname, hmark.2.2.2.2⟩
  have hblank : c ≠ ' ' := by
    rintro rfl
    exact hmark (by decide)
  rw [shownTitle] at htitle
  by_cases hnone : (title?.getD []).isEmpty
  · simpa [headLine, hnone] using hfront
  · simpa [headLine, hnone, hblank, htitle] using hfront

theorem render_eq {register : TheoremRegister} {environment content first : Text}
    {kind : TheoremKind} {rest : List Text} (hkind : register.kinds.get? environment = some kind)
    (hlines : Text.lines (Text.strip content) = first :: rest) (number? title? : Option Text) :
    render register environment content number? title? =
      Text.unlines (headLine (nameFor environment) title? ::
        ((Text.stripEnd (leadIn kind.heading number? ++ first) :: rest).map quotedLine ++
          [[], []])) := by
  unfold render
  simp only [hkind, hlines, Text.unlines_cons]
  simp

/-! ### The first body line -/

theorem not_mem_leadIn {heading number : Text} (hheading : IsHeading heading)
    (hnumber : IsNumber number) {c : Char} (hword : isWord c = false) (hdigit : isDecimal c = false)
    (hblank : c ≠ ' ') (hpoint : c ≠ '.') : c ∉ leadIn heading (some number) := by
  obtain ⟨hwords, hdigits⟩ := not_mem_heading_number hheading hnumber hword hdigit hblank hpoint
  simp [leadIn, hwords, hdigits, hblank, hpoint]

theorem leadNumber?_leadIn {heading number : Text} (hheading : IsHeading heading)
    (hnumber : IsNumber number) (t : Text) :
    leadNumber? (leadIn heading (some number) ++ t) = some (number, ' ' :: t) := by
  have hread := leadNumber?_append hheading hnumber (t := ' ' :: t) (by
    intro c hc
    cases hc
    decide)
  rw [← hread]
  simp [leadIn]

/-- **A lead-in is taken off the line that it was written before.** -/
theorem dropLeadIn_stripEnd {heading number : Text} (hheading : IsHeading heading)
    (hnumber : IsNumber number) {t : Text} (ht : ∀ c ∈ t.head?, ¬ Text.isBlank c) :
    dropLeadIn (Text.stripEnd (leadIn heading (some number) ++ t)) = Text.stripEnd t := by
  cases t with
  | nil =>
    have hstrip : Text.stripEnd (leadIn heading (some number) ++ []) =
        heading ++ ' ' :: (number ++ '.' :: []) := by
      have htrim := Text.stripEnd_append_cons (heading ++ ' ' :: number) (c := '.') (by decide) [' ']
      have hblank : Text.stripEnd [' '] = [] := rfl
      simpa [leadIn, hblank] using htrim
    rw [hstrip, dropLeadIn, leadNumber?_append hheading hnumber (by simp)]
    rfl
  | cons c t =>
    have hc : ¬ Text.isBlank c := ht c rfl
    have hline : ¬ isLineBlank c := fun h => hc (isBlank_of_isLineBlank h)
    have htrim : Text.stripEnd (c :: t) = c :: Text.stripEnd t := Text.stripEnd_append_cons [] hc t
    rw [Text.stripEnd_append_cons _ hc, dropLeadIn, leadNumber?_leadIn hheading hnumber, htrim]
    simp only
    rw [List.dropWhile_cons_of_pos (by decide), List.dropWhile_cons_of_neg hline]

end TexMark.Callout
