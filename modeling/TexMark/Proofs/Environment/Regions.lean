/-
  TexMark/Proofs/Environment/Regions.lean
  =======================================
  **What is replaced, and what stays.**  However malformed a document is, the scan replaces
  regions of it that lie apart and copies the rest.  The regions are the declarations that no
  converted environment covers, and the converted environments that no other one covers:

    * `Forest.exposed`, `Forest.outermost` — the events and the environments of a forest that
      stand in no environment;
    * `mem_exposed_iff`, `mem_outermost_iff` — they are those that no environment covers;
    * `ReplacesRegions` — only these are replaced, for every forest (`Forest.replacesRegions`);
    * `regions_of_environments` — the regions of a document.
-/
import TexMark.Proofs.Environment.Fates

namespace TexMark.Environment

/-- An environment **covers** a stretch of the text that lies between the start of its beginning
    and the stop of its end. -/
def Covers (p : Marker × Marker) (start stop : Nat) : Prop := p.1.start ≤ start ∧ stop ≤ p.2.stop

/-- The environment is one of those converted, and no other one covers it. -/
def IsMaximal (converted : List (Marker × Marker)) (p : Marker × Marker) : Prop :=
  p ∈ converted ∧ ∀ q ∈ converted, Covers q p.1.start p.2.stop → q = p

/-- No converted environment covers the event. -/
def Uncovered (converted : List (Marker × Marker)) (x : Hit Event) : Prop :=
  ∀ q ∈ converted, ¬ Covers q x.start x.stop

/-- Does an event lie between the beginning and the end of an environment? -/
def isBetween (p : Marker × Marker) (x : Hit Event) : Bool :=
  p.1.stop ≤ x.start ∧ x.stop ≤ p.2.start

theorem isBetween_iff {p : Marker × Marker} {x : Hit Event} :
    isBetween p x ↔ p.1.stop ≤ x.start ∧ x.stop ≤ p.2.start := decide_eq_true_iff

/-- Does an environment lie between the beginning and the end of another? -/
def isWithin (p q : Marker × Marker) : Bool := p.1.stop ≤ q.1.start ∧ q.2.stop ≤ p.2.start

theorem isWithin_iff {p q : Marker × Marker} :
    isWithin p q ↔ p.1.stop ≤ q.1.start ∧ q.2.stop ≤ p.2.start := decide_eq_true_iff

namespace Apart

variable {size : Nat} {es more : List (Hit Event)} {e : Hit Event}

theorem of_cons (h : Apart size (e :: es)) :
    Apart size es ∧ e.start < e.stop ∧ ∀ x ∈ es, e.stop ≤ x.start :=
  ⟨⟨fun x hx => h.inside x (List.mem_cons_of_mem e hx), (List.pairwise_cons.mp h.pairwise).2⟩,
    (h.inside e List.mem_cons_self).1, (List.pairwise_cons.mp h.pairwise).1⟩

theorem of_append (h : Apart size (es ++ more)) :
    Apart size es ∧ Apart size more ∧ ∀ x ∈ es, ∀ y ∈ more, x.stop ≤ y.start := by
  obtain ⟨hes, hmore, hbetween⟩ := List.pairwise_append.mp h.pairwise
  exact ⟨⟨fun x hx => h.inside x (List.mem_append_left _ hx), hes⟩,
    ⟨fun x hx => h.inside x (List.mem_append_right _ hx), hmore⟩, hbetween⟩

/-- Two events that stand apart do not overlap. -/
theorem of_ne (h : Apart size es) {x y : Hit Event} (hx : x ∈ es) (hy : y ∈ es) (hne : x ≠ y) :
    x.stop ≤ y.start ∨ y.stop ≤ x.start :=
  apart_of_pairwise h.pairwise hx hy hne

end Apart

namespace Forest

/-! ### Events and environments in the open -/

/-- The events that stand in no environment. -/
def exposed : Forest → List (Hit Event)
  | nil => []
  | leaf e rest => e :: rest.exposed
  | environment _ _ _ rest => rest.exposed

/-- The environments that stand in no other. -/
def outermost : Forest → List (Marker × Marker)
  | nil => []
  | leaf _ rest => rest.outermost
  | environment opening closing _ rest => (opening, closing) :: rest.outermost

variable {size : Nat} {forest inner rest : Forest} {opening closing : Marker}
  {p : Marker × Marker} {x : Hit Event}

theorem mem_events_of_environments (h : p ∈ forest.environments) :
    p.1.opening ∈ forest.events ∧ p.2.closing ∈ forest.events := by
  induction forest with
  | nil => cases h
  | leaf e rest ih =>
    obtain ⟨hopening, hclosing⟩ := ih h
    exact ⟨List.mem_cons_of_mem e hopening, List.mem_cons_of_mem e hclosing⟩
  | environment opening closing inner rest ihInner ihRest =>
    simp only [environments, List.mem_append, List.mem_cons] at h
    simp only [events, List.mem_cons, List.mem_append]
    rcases h with h | rfl | h
    · obtain ⟨hopening, hclosing⟩ := ihInner h
      exact ⟨.inr (.inl hopening), .inr (.inl hclosing)⟩
    · exact ⟨.inl rfl, .inr (.inr (.inl rfl))⟩
    · obtain ⟨hopening, hclosing⟩ := ihRest h
      exact ⟨.inr (.inr (.inr hopening)), .inr (.inr (.inr hclosing))⟩

/-- What an environment and the forest behind it say when their events stand apart. -/
structure Split (size : Nat) (opening closing : Marker) (inner rest : Forest) : Prop where
  apart_inner : Apart size inner.events
  apart_rest : Apart size rest.events
  opening_lt : opening.start < opening.stop
  between : opening.stop ≤ closing.start
  closing_lt : closing.start < closing.stop
  inside : ∀ x ∈ inner.events, x.start < x.stop ∧ opening.stop ≤ x.start ∧ x.stop ≤ closing.start
  behind : ∀ x ∈ rest.events, x.start < x.stop ∧ closing.stop ≤ x.start

theorem split_of_apart (h : Apart size (environment opening closing inner rest).events) :
    Split size opening closing inner rest := by
  obtain ⟨h, hopening, hbehind⟩ := h.of_cons
  obtain ⟨hinner, h, hinside⟩ := h.of_append
  obtain ⟨hrest, hclosing, hlast⟩ := h.of_cons
  exact {
    apart_inner := hinner
    apart_rest := hrest
    opening_lt := hopening
    between := hbehind closing.closing (by simp)
    closing_lt := hclosing
    inside := fun x hx => ⟨(hinner.inside x hx).1, hbehind x (by simp [hx]),
      hinside x hx closing.closing List.mem_cons_self⟩
    behind := fun x hx => ⟨(hrest.inside x hx).1, hlast x hx⟩ }

namespace Split

/-- The environments inside lie between beginning and end. -/
theorem environments_inside (h : Split size opening closing inner rest)
    (hp : p ∈ inner.environments) :
    opening.stop ≤ p.1.start ∧ p.2.stop ≤ closing.start := by
  obtain ⟨hopening, hclosing⟩ := mem_events_of_environments hp
  exact ⟨(h.inside _ hopening).2.1, (h.inside _ hclosing).2.2⟩

/-- The environments behind lie behind the end. -/
theorem environments_behind (h : Split size opening closing inner rest)
    (hp : p ∈ rest.environments) : closing.stop ≤ p.1.start ∧ closing.stop < p.2.stop := by
  obtain ⟨hopening, hclosing⟩ := mem_events_of_environments hp
  have hstart := (h.behind _ hopening).2
  have hstop := h.behind _ hclosing
  exact ⟨hstart, Nat.lt_of_le_of_lt hstop.2 hstop.1⟩

end Split

theorem outermost_subset (hp : p ∈ forest.outermost) : p ∈ forest.environments := by
  induction forest with
  | nil => cases hp
  | leaf e rest ih => exact ih hp
  | environment opening closing inner rest _ ih =>
    rcases List.mem_cons.mp hp with rfl | hp
    · exact List.mem_append_right _ List.mem_cons_self
    · exact List.mem_append_right _ (List.mem_cons_of_mem _ (ih hp))

/-- **The outermost environments** are those that no other one covers. -/
theorem mem_outermost_iff (h : Apart size forest.events) :
    p ∈ forest.outermost ↔ IsMaximal forest.environments p := by
  induction forest with
  | nil => simp [outermost, environments, IsMaximal]
  | leaf e rest ih => exact ih h.of_cons.1
  | environment opening closing inner rest _ ih =>
    have hsplit := split_of_apart h
    have hopening := hsplit.opening_lt
    have hbetween := hsplit.between
    have hclosing := hsplit.closing_lt
    simp only [outermost, environments, IsMaximal, List.mem_cons, List.mem_append,
      ih hsplit.apart_rest]
    constructor
    · rintro (rfl | ⟨hp, hmax⟩)
      · refine ⟨.inr (.inl rfl), ?_⟩
        rintro q (hq | rfl | hq) ⟨hstart, -⟩
        · have := (hsplit.environments_inside hq).1
          dsimp only at hstart
          omega
        · rfl
        · have := (hsplit.environments_behind hq).1
          dsimp only at hstart
          omega
      · have hbehind := hsplit.environments_behind hp
        refine ⟨.inr (.inr hp), ?_⟩
        rintro q (hq | rfl | hq) hcovers
        · have := (hsplit.environments_inside hq).2
          have := hcovers.2
          omega
        · have : p.2.stop ≤ closing.stop := hcovers.2
          omega
        · exact hmax q hq hcovers
    · rintro ⟨hp | rfl | hp, hmax⟩
      · -- an environment inside is covered by the one around it
        have hinside := hsplit.environments_inside hp
        have hcovers : Covers (opening, closing) p.1.start p.2.stop :=
          ⟨(by omega : opening.start ≤ p.1.start), (by omega : p.2.stop ≤ closing.stop)⟩
        rw [← hmax (opening, closing) (.inr (.inl rfl)) hcovers] at hinside
        dsimp only at hinside
        omega
      · exact .inl rfl
      · exact .inr ⟨hp, fun q hq hcovers => hmax q (.inr (.inr hq)) hcovers⟩

/-- **The exposed events** are those that no environment covers. -/
theorem mem_exposed_iff (h : Apart size forest.events) :
    x ∈ forest.exposed ↔ x ∈ forest.events ∧ Uncovered forest.environments x := by
  induction forest with
  | nil => simp [exposed, events]
  | leaf e rest ih =>
    obtain ⟨hrest, hlt, hbehind⟩ := h.of_cons
    simp only [exposed, events, Uncovered, environments, List.mem_cons, ih hrest]
    constructor
    · rintro (rfl | ⟨hx, hcovers⟩)
      · refine ⟨.inl rfl, ?_⟩
        intro q hq hcovers
        have := hbehind _ (mem_events_of_environments hq).1
        exact absurd (Nat.lt_of_lt_of_le hlt this) (Nat.not_lt.mpr hcovers.1)
      · exact ⟨.inr hx, hcovers⟩
    · rintro ⟨rfl | hx, hcovers⟩
      · exact .inl rfl
      · exact .inr ⟨hx, hcovers⟩
  | environment opening closing inner rest _ ih =>
    have hsplit := split_of_apart h
    have hopening := hsplit.opening_lt
    have hbetween := hsplit.between
    have hclosing := hsplit.closing_lt
    simp only [exposed, events, Uncovered, environments, List.mem_cons, List.mem_append,
      ih hsplit.apart_rest]
    constructor
    · rintro ⟨hx, hcovers⟩
      have hbehind := hsplit.behind x hx
      refine ⟨.inr (.inr (.inr hx)), ?_⟩
      rintro q (hq | rfl | hq) hq'
      · have := (hsplit.environments_inside hq).2
        have := hq'.2
        omega
      · have : x.stop ≤ closing.stop := hq'.2
        omega
      · exact hcovers q hq hq'
    · rintro ⟨hx, hcovers⟩
      have hnot := hcovers (opening, closing) (.inr (.inl rfl))
      rcases hx with rfl | hx | rfl | hx
      · exact absurd ⟨Nat.le_refl _, (by omega : opening.stop ≤ closing.stop)⟩ hnot
      · have := hsplit.inside x hx
        exact absurd ⟨(by omega : opening.start ≤ x.start), (by omega : x.stop ≤ closing.stop)⟩ hnot
      · exact absurd ⟨(by omega : opening.start ≤ closing.start), Nat.le_refl _⟩ hnot
      · exact ⟨hx, fun q hq => hcovers q (.inr (.inr hq))⟩

/-- Nothing in the open overlaps with an outermost environment. -/
theorem apart_of_exposed (h : Apart size forest.events) (hx : x ∈ forest.exposed)
    (hp : p ∈ forest.outermost) : x.stop ≤ p.1.start ∨ p.2.stop ≤ x.start := by
  induction forest with
  | nil => cases hx
  | leaf e rest ih =>
    obtain ⟨hrest, -, hbehind⟩ := h.of_cons
    have hlater : p ∈ rest.outermost := hp
    have hopening := (mem_events_of_environments (outermost_subset hlater)).1
    rcases List.mem_cons.mp hx with rfl | hx
    · exact .inl (hbehind p.1.opening hopening)
    · exact ih hrest hx hp
  | environment opening closing inner rest _ ih =>
    have hsplit := split_of_apart h
    rcases List.mem_cons.mp hp with rfl | hp
    · exact .inr (hsplit.behind x ((mem_exposed_iff hsplit.apart_rest).mp hx).1).2
    · exact ih hsplit.apart_rest hx hp

/-! ### Edits in the open -/

section

variable (settings : Settings) (text : Text)

theorem leafEdits_eq_nil {e : Hit Event} (he : ∀ command, e.value ≠ .declaration command) :
    leafEdits e = [] := by
  obtain ⟨start, stop, value⟩ := e
  cases value with
  | opening name => rfl
  | closing name => rfl
  | section_ => rfl
  | declaration command => exact absurd rfl (he command)

/-- Every exposed declaration is taken out. -/
theorem mem_outcome_of_exposed {command : NewTheorem} (hx : x ∈ forest.exposed)
    (hvalue : x.value = .declaration command) (c : Counters) :
    ⟨x.start, x.stop, []⟩ ∈ (forest.outcome settings text c).1 := by
  induction forest generalizing c with
  | nil => cases hx
  | leaf e rest ih =>
    rw [outcome_leaf]
    rcases List.mem_cons.mp hx with rfl | hx
    · exact List.mem_append_left _ (by simp [leafEdits, hvalue])
    · exact List.mem_append_right _ (ih hx _)
  | environment opening closing inner rest _ ih =>
    rw [outcome_environment]
    exact List.mem_cons_of_mem _ (ih hx _)

/-- Every outermost environment is replaced. -/
theorem exists_mem_outcome_of_outermost (hp : p ∈ forest.outermost) (c : Counters) :
    ∃ e ∈ (forest.outcome settings text c).1, e.start = p.1.start ∧ e.stop = p.2.stop := by
  induction forest generalizing c with
  | nil => cases hp
  | leaf e rest ih =>
    obtain ⟨edit, hedit, hspan⟩ := ih hp (c.after settings text e)
    rw [outcome_leaf]
    exact ⟨edit, List.mem_append_right _ hedit, hspan⟩
  | environment opening closing inner rest _ ih =>
    rw [outcome_environment]
    rcases List.mem_cons.mp hp with rfl | hp
    · exact ⟨_, List.mem_cons_self, rfl, rfl⟩
    · obtain ⟨edit, hedit, hspan⟩ := ih hp _
      exact ⟨edit, List.mem_cons_of_mem _ hedit, hspan⟩

/-- What begins before an environment does not lie in it. -/
theorem filter_isBetween_eq_nil {es : List (Hit Event)} (hes : ∀ x ∈ es, x.start < p.1.stop) :
    es.filter (isBetween p) = [] := by
  apply List.filter_eq_nil_iff.mpr
  intro x hx
  have := hes x hx
  rw [isBetween_iff]
  omega

/-- What lies between the beginning and the end of an environment is its content. -/
theorem Split.filter_events (h : Split size opening closing inner rest) :
    (environment opening closing inner rest).events.filter (isBetween (opening, closing)) =
      inner.events := by
  have hopening := h.opening_lt
  have hclosing := h.closing_lt
  have hinner : inner.events.filter (isBetween (opening, closing)) = inner.events :=
    List.filter_eq_self.mpr fun x hx => isBetween_iff.mpr (h.inside x hx).2
  have hrest : rest.events.filter (isBetween (opening, closing)) = [] := by
    apply List.filter_eq_nil_iff.mpr
    intro x hx
    have := h.behind x hx
    rw [isBetween_iff]
    dsimp only
    omega
  have hbegin : ¬ isBetween (opening, closing) opening.opening := fun hb =>
    absurd (isBetween_iff.mp hb).1 (Nat.not_le.mpr hopening)
  have hend : ¬ isBetween (opening, closing) closing.closing := fun hb =>
    absurd (isBetween_iff.mp hb).2 (Nat.not_le.mpr hclosing)
  rw [events, List.filter_cons_of_neg hbegin, List.filter_append, hinner,
    List.filter_cons_of_neg hend, hrest, List.append_nil]

/-- Between the beginning and the end of an environment behind lies what lies there behind. -/
theorem Split.filter_events_behind (h : Split size opening closing inner rest)
    (hp : p ∈ rest.environments) :
    (environment opening closing inner rest).events.filter (isBetween p) =
      rest.events.filter (isBetween p) := by
  have hopening := h.opening_lt
  have hbetween := h.between
  have hclosing := h.closing_lt
  have hstart : closing.stop < p.1.stop := by
    have := h.behind _ (mem_events_of_environments hp).1
    exact Nat.lt_of_le_of_lt this.2 this.1
  have hevents : (environment opening closing inner rest).events =
      (opening.opening :: inner.events ++ [closing.closing]) ++ rest.events := by
    simp [events]
  rw [hevents, List.filter_append, filter_isBetween_eq_nil, List.nil_append]
  intro x hx
  simp only [List.mem_append, List.mem_cons, List.not_mem_nil, or_false] at hx
  rcases hx with (rfl | hx) | rfl
  · exact (by omega : opening.start < p.1.stop)
  · have := h.inside x hx
    omega
  · exact (by omega : closing.start < p.1.stop)

/-- The environments between the beginning and the end of an environment are those inside. -/
theorem Split.filter_environments (h : Split size opening closing inner rest) :
    (environment opening closing inner rest).environments.filter (isWithin (opening, closing)) =
      inner.environments := by
  have hopening := h.opening_lt
  have hinner : inner.environments.filter (isWithin (opening, closing)) = inner.environments :=
    List.filter_eq_self.mpr fun q hq => isWithin_iff.mpr (h.environments_inside hq)
  have hrest : rest.environments.filter (isWithin (opening, closing)) = [] := by
    apply List.filter_eq_nil_iff.mpr
    intro q hq
    have := (h.environments_behind hq).2
    have := h.closing_lt
    rw [isWithin_iff]
    dsimp only
    omega
  have hself : ¬ isWithin (opening, closing) (opening, closing) := fun hw =>
    absurd (isWithin_iff.mp hw).1 (Nat.not_le.mpr hopening)
  rw [environments, List.filter_append, hinner, List.filter_cons_of_neg hself, hrest,
    List.append_nil]

/-- Those between the beginning and the end of an environment behind are there behind. -/
theorem Split.filter_environments_behind (h : Split size opening closing inner rest)
    (hp : p ∈ rest.environments) :
    (environment opening closing inner rest).environments.filter (isWithin p) =
      rest.environments.filter (isWithin p) := by
  have hopening := h.opening_lt
  have hbetween := h.between
  have hclosing := h.closing_lt
  have hstart : closing.stop < p.1.stop := by
    have := h.behind _ (mem_events_of_environments hp).1
    exact Nat.lt_of_le_of_lt this.2 this.1
  have hinner : inner.environments.filter (isWithin p) = [] := by
    apply List.filter_eq_nil_iff.mpr
    intro q hq
    have := h.inside _ (mem_events_of_environments hq).1
    have : q.1.start < q.1.stop ∧ q.1.stop ≤ closing.start := ⟨this.1, this.2.2⟩
    rw [isWithin_iff]
    omega
  have hself : ¬ isWithin p (opening, closing) := by
    rw [isWithin_iff]
    dsimp only
    omega
  rw [environments, List.filter_append, hinner, List.nil_append, List.filter_cons_of_neg hself]

/-- **Nothing else is replaced.**  An edit takes out an exposed declaration, or is the conversion
    of an outermost environment, whose content are the events and the environments between its
    beginning and its end. -/
theorem cases_of_mem_outcome (h : Apart size forest.events) (c : Counters) {e : Edit}
    (he : e ∈ (forest.outcome settings text c).1) :
    (∃ x ∈ forest.exposed, (∃ command, x.value = .declaration command) ∧
        e = ⟨x.start, x.stop, []⟩) ∨
      ∃ p ∈ forest.outermost, ∃ (inner : Forest) (c' : Counters),
        inner.events = forest.events.filter (isBetween p) ∧
        inner.environments = forest.environments.filter (isWithin p) ∧
        e = (environmentEdit settings text p.1 p.2 inner c').1 := by
  induction forest generalizing c with
  | nil => cases he
  | leaf y rest ih =>
    obtain ⟨hrest, hlt, hbehind⟩ := h.of_cons
    rw [outcome_leaf] at he
    rcases List.mem_append.mp he with he | he
    · by_cases hy : ∃ command, y.value = .declaration command
      · obtain ⟨command, hvalue⟩ := hy
        refine .inl ⟨y, List.mem_cons_self, ⟨command, hvalue⟩, ?_⟩
        simpa [leafEdits, hvalue] using he
      · rw [leafEdits_eq_nil (not_exists.mp hy)] at he
        cases he
    · rcases ih hrest _ he with
        ⟨x, hx, hvalue, rfl⟩ | ⟨p, hp, inner, c', hevents, henvironments, rfl⟩
      · exact .inl ⟨x, List.mem_cons_of_mem y hx, hvalue, rfl⟩
      · refine .inr ⟨p, hp, inner, c', ?_, henvironments, rfl⟩
        have hopening := (mem_events_of_environments (outermost_subset hp)).1
        have hstart : p.1.start < p.1.stop := (hrest.inside _ hopening).1
        have hstop : y.stop ≤ p.1.start := hbehind _ hopening
        rw [hevents, events, List.filter_cons_of_neg]
        rw [isBetween_iff]
        omega
  | environment opening closing inner rest _ ih =>
    have hsplit := split_of_apart h
    rw [outcome_environment] at he
    rcases List.mem_cons.mp he with rfl | he
    · exact .inr ⟨(opening, closing), List.mem_cons_self, inner, c, hsplit.filter_events.symm,
        hsplit.filter_environments.symm, rfl⟩
    · rcases ih hsplit.apart_rest _ he with
        ⟨x, hx, hvalue, rfl⟩ | ⟨p, hp, inner', c', hevents, henvironments, rfl⟩
      · exact .inl ⟨x, hx, hvalue, rfl⟩
      · refine .inr ⟨p, List.mem_cons_of_mem _ hp, inner', c', ?_, ?_, rfl⟩
        · rw [hevents, hsplit.filter_events_behind (outermost_subset hp)]
        · rw [henvironments, hsplit.filter_environments_behind (outermost_subset hp)]

end

end Forest

/-! ### The regions of a document -/

/-- The edits of a text **replace its regions**, and nothing else. -/
structure ReplacesRegions (settings : Settings) (text : Text) (es : List (Hit Event))
    (converted : List (Marker × Marker)) (edits : List Edit) : Prop where
  /-- Declarations that lie in no converted environment are taken out. -/
  declarations : ∀ x ∈ es, ∀ command, x.value = .declaration command → Uncovered converted x →
    ⟨x.start, x.stop, []⟩ ∈ edits
  /-- Each maximal converted environment is replaced, from the start of its beginning to the
      stop of its end. -/
  environments : ∀ p, IsMaximal converted p → ∃ e ∈ edits, e.start = p.1.start ∧ e.stop = p.2.stop
  /-- Every edit takes such a declaration out, or is the conversion of such an environment with
      the events and the environments between its beginning and its end. -/
  only : ∀ e ∈ edits,
    (∃ x ∈ es, (∃ command, x.value = .declaration command) ∧ Uncovered converted x ∧
      e = ⟨x.start, x.stop, []⟩) ∨
    ∃ p, IsMaximal converted p ∧ ∃ (inner : Forest) (c : Counters),
      inner.events = es.filter (isBetween p) ∧
      inner.environments = converted.filter (isWithin p) ∧
      e = (Forest.environmentEdit settings text p.1 p.2 inner c).1
  /-- All other beginnings and ends that lie in no converted environment stay as they are. -/
  untouched : ∀ x ∈ es, x.value.isMarker → Uncovered converted x →
    ∀ e ∈ edits, e.stop ≤ x.start ∨ x.stop ≤ e.start

/-- **The edits of a forest replace its regions,** and so do those for the content of each of
    its environments. -/
theorem Forest.replacesRegions (settings : Settings) (text : Text) {forest : Forest} {size : Nat}
    (h : Apart size forest.events) (c : Counters) :
    ReplacesRegions settings text forest.events forest.environments
      (forest.outcome settings text c).1 where
  declarations := fun x hx command hvalue huncovered =>
    mem_outcome_of_exposed settings text ((mem_exposed_iff h).mpr ⟨hx, huncovered⟩) hvalue c
  environments := fun p hp =>
    exists_mem_outcome_of_outermost settings text ((mem_outermost_iff h).mpr hp) c
  only := by
    intro e he
    rcases cases_of_mem_outcome settings text h c he with
      ⟨x, hx, hvalue, heq⟩ | ⟨p, hp, inner, c', hevents, henvironments, heq⟩
    · obtain ⟨hmem, huncovered⟩ := (mem_exposed_iff h).mp hx
      exact .inl ⟨x, hmem, hvalue, huncovered, heq⟩
    · exact .inr ⟨p, (mem_outermost_iff h).mp hp, inner, c', hevents, henvironments, heq⟩
  untouched := by
    intro x hx hmarker huncovered e he
    have hexposed : x ∈ forest.exposed := (mem_exposed_iff h).mpr ⟨hx, huncovered⟩
    rcases cases_of_mem_outcome settings text h c he with
      ⟨y, hy, ⟨command, hvalue⟩, rfl⟩ | ⟨p, hp, inner, c', -, -, rfl⟩
    · refine h.of_ne ((mem_exposed_iff h).mp hy).1 hx ?_
      rintro rfl
      rw [hvalue] at hmarker
      cases hmarker
    · exact (apart_of_exposed h hexposed hp).symm

/-- The edits of a document stand from left to right. -/
theorem ordered_outcome (settings : Settings) (register : TheoremRegister) (equations : Nat)
    (text : Text) {n : Nesting} (hn : Nesting.Reached (events settings register text) n) :
    Edit.Ordered 0 text.length (n.forest.outcome settings text ⟨register, equations⟩).1 := by
  obtain ⟨s, hs, hordered⟩ := exists_run settings register equations text
  have hrun := (run_of_reached settings text register equations mayNest hn).1
  rw [run, hrun] at hs
  cases hs
  rw [n.outcome_forest settings text register equations]
  exact hordered

/-- **The regions of a document.**  The result is the document with the edits of a forest of all
    its marks spliced into it.  The edits lie apart from left to right, and what they replace are
    exactly the declarations that lie in no converted environment and the maximal converted
    environments.  All other text is copied: in particular beginnings and ends that were unwound,
    never closed or stray, if no converted environment is around them. -/
theorem regions_of_environments (settings : Settings) (register : TheoremRegister)
    (equations : Nat) (text : Text) :
    ∃ (n : Nesting) (edits : List Edit) (c : Counters),
      Nesting.Reached (events settings register text) n ∧
      n.forest.outcome settings text ⟨register, equations⟩ = (edits, c) ∧
      (resolve settings register equations text).result =
        .ok ⟨Edit.splice text 0 text.length edits, c.register, c.equations⟩ ∧
      Edit.Ordered 0 text.length edits ∧
      ReplacesRegions settings text (events settings register text)
        (n.log.flatMap Entry.converted) edits := by
  obtain ⟨n, hn⟩ := Nesting.exists_reached (events settings register text)
  have hevents := hn.events_forest
  have hregions : ReplacesRegions settings text (events settings register text)
      (n.log.flatMap Entry.converted)
      (n.forest.outcome settings text ⟨register, equations⟩).1 := by
    rw [← hn.environments_forest, ← hevents]
    exact Forest.replacesRegions settings text (hevents ▸ apart_events settings register text) _
  refine ⟨n, (n.forest.outcome settings text ⟨register, equations⟩).1,
    (n.forest.outcome settings text ⟨register, equations⟩).2, hn, rfl, ?_, ?_, hregions⟩
  · rw [resolve_eq_run, (resolveUnder_of_reached settings text register equations mayNest hn).1]
  · exact ordered_outcome settings register equations text hn

end TexMark.Environment
