/-
  TexMark/Proofs/Environment/Nesting.lean
  =======================================
  **The fates of beginnings and ends.**  Beginnings and ends may come in any order.  Here they
  are followed without texts, edits and counters: which environments are open, what stands in
  each of them, and what became of every beginning and every end.

    * `Nesting.Takes` — one event; the rules are the fates that it may have;
    * `Nesting.Reached` — all events, one after the other; every sequence of events reaches one
      nesting, and only one (`exists_reached`, `Reached.unique`);
    * `Nesting.forest` — the forest of the environments that were converted, in which all other
      beginnings and ends stand for themselves;
    * `Reached.perm_begun` — every beginning is open still or was closed by one end.
-/
import TexMark.Proofs.Environment.Outcome

namespace TexMark.Environment

theorem Marker.opening_inj {m m' : Marker} (h : m.opening = m'.opening) : m = m' := by
  cases m
  cases m'
  simp_all [Marker.opening]

theorem Marker.closing_inj {m m' : Marker} (h : m.closing = m'.closing) : m = m' := by
  cases m
  cases m'
  simp_all [Marker.closing]

theorem Marker.opening_ne_closing {m m' : Marker} : m.opening ≠ m'.closing := by
  simp [Marker.opening, Marker.closing]

/-! ### Fates -/

/-- What an end does. -/
inductive Fate where
  /-- It converts the innermost environment, which has its name. -/
  | converts (opening : Marker)
  /-- It closes the innermost environment of its name and those `above` it, the innermost
      first; all of them stay as they are written. -/
  | unwinds (above : List Marker) (opening : Marker)
  /-- No environment of its name is open. -/
  | strays (innermost? : Option Text)
deriving DecidableEq, Repr

/-- The beginnings that an end closes. -/
def Fate.closed : Fate → List Marker
  | converts opening => [opening]
  | unwinds above opening => above ++ [opening]
  | strays _ => []

/-- A beginning with the name of the environment around it, or an end with its fate. -/
inductive Entry where
  | begins (m : Marker) (outer? : Option Text)
  | ends (m : Marker) (fate : Fate)
deriving DecidableEq, Repr

namespace Entry

/-- The event of an entry. -/
def event : Entry → Hit Event
  | begins m _ => m.opening
  | ends m _ => m.closing

/-- The beginning of an entry. -/
def begun : Entry → List Marker
  | begins m _ => [m]
  | ends _ _ => []

/-- The beginnings that an entry closes. -/
def closed : Entry → List Marker
  | begins _ _ => []
  | ends _ fate => fate.closed

/-- The environment that is converted with an entry. -/
def converted : Entry → List (Marker × Marker)
  | ends m (.converts opening) => [(opening, m)]
  | _ => []

end Entry

/-! ### Nestings -/

/-- An open environment, and what stands in it so far. -/
structure Opened where
  marker : Marker
  inner : Forest

/-- How environments are **nested** behind some events: those that are open, the innermost
    first, what stands outside of them, and all beginnings and ends with what became of
    them. -/
structure Nesting where
  opened : List Opened
  outside : Forest
  log : List Entry

/-- The forest of open environments that are given up. -/
def givenUp : List Opened → Forest
  | [] => .nil
  | o :: os => (givenUp os).append (.leaf o.marker.opening o.inner)

theorem givenUp_append (above outer : List Opened) :
    givenUp (above ++ outer) = (givenUp outer).append (givenUp above) := by
  induction above with
  | nil => simp [givenUp]
  | cons o above ih => simp [givenUp, ih, Forest.append_assoc]

namespace Nesting

/-- Nothing has been read. -/
def start : Nesting := ⟨[], .nil, []⟩

/-- The name of the innermost open environment. -/
def innermost? (n : Nesting) : Option Text := n.opened.head?.map (·.marker.name)

/-- The nesting with more in the innermost environment. -/
def append (n : Nesting) (more : Forest) : Nesting :=
  match n.opened with
  | [] => { n with outside := n.outside.append more }
  | o :: os => { n with opened := { o with inner := o.inner.append more } :: os }

/-- The nesting with one more entry. -/
def enter (n : Nesting) (entry : Entry) : Nesting := { n with log := n.log ++ [entry] }

/-- All that has been read as one forest: only what was converted is an environment. -/
def forest (n : Nesting) : Forest := n.outside.append (givenUp n.opened)

/-- **One event.**  Each rule is one fate that the event may have. -/
inductive Takes (n : Nesting) (e : Hit Event) : Nesting → Prop where
  /-- A section or a declaration. -/
  | passes (he : ¬ e.value.isMarker) : Takes n e (n.append (.leaf e .nil))
  /-- A beginning. -/
  | begins (m : Marker) (he : e = m.opening) :
    Takes n e ({ n with opened := ⟨m, .nil⟩ :: n.opened }.enter (.begins m n.innermost?))
  /-- The end of the innermost environment. -/
  | converts (m : Marker) (he : e = m.closing) (o : Opened) (outer : List Opened)
    (hopened : n.opened = o :: outer) (hname : o.marker.name = m.name) :
    Takes n e (({ n with opened := outer }.append (.environment o.marker m o.inner .nil)).enter
      (.ends m (.converts o.marker)))
  /-- The end of an environment with others open inside it. -/
  | unwinds (m : Marker) (he : e = m.closing) (above : List Opened) (o : Opened)
    (outer : List Opened) (hopened : n.opened = above ++ o :: outer) (hne : above ≠ [])
    (habove : ∀ a ∈ above, a.marker.name ≠ m.name) (hname : o.marker.name = m.name) :
    Takes n e (({ n with opened := outer }.append
      ((givenUp (above ++ [o])).append (.leaf e .nil))).enter
        (.ends m (.unwinds (above.map Opened.marker) o.marker)))
  /-- An end whose environment is not open. -/
  | strays (m : Marker) (he : e = m.closing) (hnone : ∀ o ∈ n.opened, o.marker.name ≠ m.name) :
    Takes n e ((n.append (.leaf e .nil)).enter (.ends m (.strays n.innermost?)))

/-- The nesting that events **reach**. -/
inductive Reached : List (Hit Event) → Nesting → Prop where
  | start : Reached [] start
  | step {es : List (Hit Event)} {n n' : Nesting} {e : Hit Event} (h : Reached es n)
    (ht : n.Takes e n') : Reached (es ++ [e]) n'

/-- Every event has a fate. -/
theorem exists_takes (n : Nesting) (e : Hit Event) : ∃ n', n.Takes e n' := by
  obtain ⟨first, last, value⟩ := e
  cases value with
  | opening name => exact ⟨_, .begins ⟨name, first, last⟩ rfl⟩
  | closing name =>
    rcases innermost_cases (fun o : Opened => o.marker.name) name n.opened with
      hnone | ⟨above, o, outer, hopened, habove, hname⟩
    · exact ⟨_, .strays ⟨name, first, last⟩ rfl hnone⟩
    · by_cases hne : above = []
      · subst hne
        exact ⟨_, .converts ⟨name, first, last⟩ rfl o outer hopened hname⟩
      · exact ⟨_, .unwinds ⟨name, first, last⟩ rfl above o outer hopened hne habove hname⟩
  | section_ => exact ⟨_, .passes nofun⟩
  | declaration command => exact ⟨_, .passes nofun⟩

theorem exists_reached (es : List (Hit Event)) : ∃ n, Reached es n := by
  induction es using List.reverseRecOn with
  | nil => exact ⟨_, .start⟩
  | append_singleton es e ih =>
    obtain ⟨n, hn⟩ := ih
    obtain ⟨n', hn'⟩ := n.exists_takes e
    exact ⟨n', .step hn hn'⟩

/-- The innermost environment of a name is one. -/
theorem innermost_unique {name : Text} {above above' outer outer' : List Opened} {o o' : Opened}
    (h : above ++ o :: outer = above' ++ o' :: outer')
    (habove : ∀ a ∈ above, a.marker.name ≠ name) (hname : o.marker.name = name)
    (habove' : ∀ a ∈ above', a.marker.name ≠ name) (hname' : o'.marker.name = name) :
    above = above' ∧ o = o' ∧ outer = outer' := by
  have htake : (above ++ o :: outer).takeWhile (fun a => a.marker.name != name) = above :=
    takeWhile_of_innermost (fun a : Opened => a.marker.name) habove hname
  rw [h, takeWhile_of_innermost (fun a : Opened => a.marker.name) habove' hname'] at htake
  subst htake
  exact ⟨rfl, List.cons.inj (List.append_cancel_left h)⟩

/-- No event has two fates. -/
theorem Takes.unique {n n₁ n₂ : Nesting} {e : Hit Event} (h₁ : n.Takes e n₁)
    (h₂ : n.Takes e n₂) : n₁ = n₂ := by
  cases h₁ with
  | passes he =>
    cases h₂ with
    | passes => rfl
    | begins m he' => subst he'; exact absurd rfl he
    | converts m he' => subst he'; exact absurd rfl he
    | unwinds m he' => subst he'; exact absurd rfl he
    | strays m he' => subst he'; exact absurd rfl he
  | begins m he =>
    subst he
    cases h₂ with
    | passes he' => exact absurd rfl he'
    | begins m' he' => rw [Marker.opening_inj he']
    | converts m' he' => exact absurd he' Marker.opening_ne_closing
    | unwinds m' he' => exact absurd he' Marker.opening_ne_closing
    | strays m' he' => exact absurd he' Marker.opening_ne_closing
  | converts m he o outer hopened hname =>
    subst he
    have hmem : o ∈ n.opened := by simp [hopened]
    cases h₂ with
    | passes he' => exact absurd rfl he'
    | begins m' he' => exact absurd he'.symm Marker.opening_ne_closing
    | converts m' he' o' outer' hopened' hname' =>
      obtain rfl := Marker.closing_inj he'
      obtain ⟨rfl, rfl⟩ := List.cons.inj (hopened.symm.trans hopened')
      rfl
    | unwinds m' he' above o' outer' hopened' hne habove hname' =>
      obtain rfl := Marker.closing_inj he'
      have hunique : [] ++ o :: outer = above ++ o' :: outer' := hopened.symm.trans hopened'
      exact absurd (innermost_unique hunique nofun hname habove hname').1.symm hne
    | strays m' he' hnone =>
      obtain rfl := Marker.closing_inj he'
      exact absurd hname (hnone o hmem)
  | unwinds m he above o outer hopened hne habove hname =>
    subst he
    have hmem : o ∈ n.opened := by simp [hopened]
    cases h₂ with
    | passes he' => exact absurd rfl he'
    | begins m' he' => exact absurd he'.symm Marker.opening_ne_closing
    | converts m' he' o' outer' hopened' hname' =>
      obtain rfl := Marker.closing_inj he'
      have hunique : above ++ o :: outer = [] ++ o' :: outer' := hopened.symm.trans hopened'
      exact absurd (innermost_unique hunique habove hname nofun hname').1 hne
    | unwinds m' he' above' o' outer' hopened' hne' habove' hname' =>
      obtain rfl := Marker.closing_inj he'
      obtain ⟨rfl, rfl, rfl⟩ :=
        innermost_unique (hopened.symm.trans hopened') habove hname habove' hname'
      rfl
    | strays m' he' hnone =>
      obtain rfl := Marker.closing_inj he'
      exact absurd hname (hnone o hmem)
  | strays m he hnone =>
    subst he
    cases h₂ with
    | passes he' => exact absurd rfl he'
    | begins m' he' => exact absurd he'.symm Marker.opening_ne_closing
    | converts m' he' o' outer' hopened' hname' =>
      obtain rfl := Marker.closing_inj he'
      exact absurd hname' (hnone o' (by simp [hopened']))
    | unwinds m' he' above' o' outer' hopened' hne' habove' hname' =>
      obtain rfl := Marker.closing_inj he'
      exact absurd hname' (hnone o' (by simp [hopened']))
    | strays m' he' hnone' => rw [Marker.closing_inj he']

/-- Events reach one nesting only. -/
theorem Reached.unique {es : List (Hit Event)} {n₁ n₂ : Nesting} (h₁ : Reached es n₁)
    (h₂ : Reached es n₂) : n₁ = n₂ := by
  induction h₁ generalizing n₂ with
  | start =>
    generalize hes : ([] : List (Hit Event)) = es at h₂
    cases h₂ with
    | start => rfl
    | step => simp at hes
  | @step es n n' e h ht ih =>
    generalize hes : es ++ [e] = es' at h₂
    cases h₂ with
    | start => simp at hes
    | @step es' m m' e' h' ht' =>
      obtain ⟨rfl, rfl⟩ := List.append_singleton_inj.mp hes
      rw [ih h'] at ht
      exact ht.unique ht'

/-! ### What is reached -/

section

variable (n : Nesting) (more : Forest) (entry : Entry)

@[simp] theorem log_append : (n.append more).log = n.log := by
  unfold append
  split <;> rfl

@[simp] theorem markers_append :
    (n.append more).opened.map Opened.marker = n.opened.map Opened.marker := by
  unfold append
  split
  · rename_i h
    simp [h]
  · rename_i h
    simp [h]

@[simp] theorem forest_append : (n.append more).forest = n.forest.append more := by
  unfold append
  split <;> rename_i h <;> simp [forest, h, givenUp, Forest.append_assoc, Forest.append]

@[simp] theorem forest_enter : (n.enter entry).forest = n.forest := rfl

@[simp] theorem opened_enter : (n.enter entry).opened = n.opened := rfl

@[simp] theorem log_enter : (n.enter entry).log = n.log ++ [entry] := rfl

end

/-- An event that converts nothing stands for itself. -/
theorem Takes.forest_cases {n n' : Nesting} {e : Hit Event} (h : n.Takes e n') :
    (n'.forest = n.forest.append (.leaf e .nil) ∧
        n'.log.flatMap Entry.converted = n.log.flatMap Entry.converted) ∨
      ∃ (m : Marker) (o : Opened) (before : Forest), e = m.closing ∧ o.marker.name = m.name ∧
        n.forest = before.append (.leaf o.marker.opening o.inner) ∧
        n'.forest = before.append (.environment o.marker m o.inner .nil) ∧
        n'.log = n.log ++ [.ends m (.converts o.marker)] := by
  cases h with
  | passes he => exact .inl ⟨forest_append _ _, by simp⟩
  | begins m he =>
    subst he
    exact .inl ⟨by simp [forest, enter, givenUp, Forest.append_assoc],
      by simp [enter, Entry.converted]⟩
  | converts m he o outer hopened hname =>
    refine .inr ⟨m, o, n.outside.append (givenUp outer), he, hname, ?_, ?_, by simp⟩
    · rw [forest, hopened, givenUp, Forest.append_assoc]
    · rw [forest_enter, forest_append, forest]
  | unwinds m he above o outer hopened hne habove hname =>
    refine .inl ⟨?_, by simp [Entry.converted]⟩
    have hgiven : givenUp (above ++ o :: outer) =
        (givenUp outer).append (givenUp (above ++ [o])) := by
      rw [← givenUp_append]
      simp
    rw [forest_enter, forest_append, forest, forest, hopened, hgiven]
    simp only [Forest.append_assoc]
  | strays m he hnone =>
    exact .inl ⟨by rw [forest_enter, forest_append], by simp [Entry.converted]⟩

/-- The events are those of the forest. -/
theorem Reached.events_forest {es : List (Hit Event)} {n : Nesting} (h : Reached es n) :
    n.forest.events = es := by
  induction h with
  | start => rfl
  | step h ht ih =>
    rcases ht.forest_cases with ⟨hleaf, -⟩ | ⟨m, o, before, rfl, -, hbefore, hafter, -⟩
    · rw [hleaf, Forest.events_append, ih]
      rfl
    · rw [hafter, ← ih, hbefore]
      simp [Forest.events]

/-- Every beginning and every end has its entry, in the order of the text. -/
theorem Reached.log_events {es : List (Hit Event)} {n : Nesting} (h : Reached es n) :
    n.log.map Entry.event = es.filter fun e => e.value.isMarker := by
  induction h with
  | start => rfl
  | step h ht ih =>
    rw [List.filter_append, ← ih]
    cases ht with
    | passes he => simp [he]
    | begins m he => simp [he, enter, Entry.event, Marker.opening, Event.isMarker]
    | converts m he => simp [he, Entry.event, Marker.closing, Event.isMarker]
    | unwinds m he => simp [he, Entry.event, Marker.closing, Event.isMarker]
    | strays m he => simp [he, Entry.event, Marker.closing, Event.isMarker]

/-- The environments of the forest are those that were converted. -/
theorem Reached.environments_forest {es : List (Hit Event)} {n : Nesting} (h : Reached es n) :
    n.forest.environments = n.log.flatMap Entry.converted := by
  induction h with
  | start => rfl
  | step h ht ih =>
    rcases ht.forest_cases with
      ⟨hleaf, hlog⟩ | ⟨m, o, before, rfl, -, hbefore, hafter, hlog⟩
    · rw [hleaf, hlog, ← ih]
      simp [Forest.environments]
    · rw [hafter, hlog, List.flatMap_append, ← ih, hbefore]
      simp [Forest.environments, Entry.converted]

/-- **Every beginning is open still, or was closed by one end.** -/
theorem Reached.perm_begun {es : List (Hit Event)} {n : Nesting} (h : Reached es n) :
    (n.log.flatMap Entry.closed ++ n.opened.map Opened.marker).Perm
      (n.log.flatMap Entry.begun) := by
  induction h with
  | start => exact .refl _
  | step h ht ih =>
    cases ht with
    | passes he => simpa using ih
    | begins m he =>
      have hopens := List.perm_middle.trans (ih.cons m)
      simpa [enter, Entry.closed, Entry.begun] using
        hopens.trans (List.perm_append_singleton m _).symm
    | converts m he o outer hopened hname =>
      rw [hopened] at ih
      simpa [Entry.closed, Entry.begun, Fate.closed] using ih
    | unwinds m he above o outer hopened hne habove hname =>
      rw [hopened] at ih
      simpa [Entry.closed, Entry.begun, Fate.closed] using ih
    | strays m he hnone => simpa [Entry.closed, Entry.begun, Fate.closed] using ih

end Nesting

end TexMark.Environment
