/-
  TexMark/Proofs/Conversion/Pool.lean
  ===================================
  **Results come in the order of their documents.**  Workers are done in any order, so that a
  run of the pool is one of many.  All of them come to the same answer:

    * `Pool.Kept` — what every step keeps: each place is somewhere in the pool, once, and what
      stands with it is its document or the result of its document;
    * `Pool.isOver_or_step` — a pool with something left to be done goes on;
    * `Pool.wellFounded_step` — and it does not go on for ever;
    * `Pool.exists_run_of_perm` — with enough workers the results come in every order;
    * `answers_in_order` — the answer is the list of the results, document by document.
-/
import TexMark.Conversion.Pool
import TexMark.Proofs.Conversions

namespace TexMark.Conversion

variable {setup : Setup} {workers : Nat} {texts : List Text}

theorem jobs_eq (texts : List Text) :
    jobs texts = (List.range texts.length).map fun place => ⟨place, texts.getD place []⟩ := by
  apply List.ext_getElem
  · simp [jobs]
  · intro i h _
    have hi : i < texts.length := by simpa [jobs] using h
    simp [jobs, hi]

theorem workerCount_pos (wanted : Int) (documents : Nat) : 0 < workerCount wanted documents := by
  unfold workerCount
  omega

theorem length_le_workerCount {wanted : Int} {documents : Nat} (h : (documents : Int) ≤ wanted) :
    documents ≤ workerCount wanted documents := by
  unfold workerCount
  omega

/-- Results that stand with their places are those of a run over these places. -/
theorem transformAt_places {results : List (Nat × Result)}
    (h : ∀ r ∈ results, texts[r.1]?.map (transform setup) = some r.2) :
    transformAt setup texts (results.map (·.1)) = results := by
  induction results with
  | nil => rfl
  | cons r results ih =>
    obtain ⟨text, htext, hr⟩ := Option.map_eq_some_iff.mp (h r List.mem_cons_self)
    have hrest := ih fun s hs => h s (List.mem_cons_of_mem r hs)
    rw [transformAt] at hrest
    rw [transformAt, List.map_cons, List.filterMap_cons, htext, hrest]
    simp [hr]

namespace Pool

/-! ### What steps keep -/

/-- The places of all documents and results in the pool. -/
def places (p : Pool) : List Nat :=
  (p.unsent ++ p.waiting ++ p.running).map (·.place) ++ (p.finished ++ p.taken).map (·.1)

/-- What a pool **keeps** of the documents it has to convert. -/
structure Kept (setup : Setup) (texts : List Text) (p : Pool) : Prop where
  /-- No place is lost, and none is there twice. -/
  places : p.places.Perm (List.range texts.length)
  jobs : ∀ job ∈ p.unsent ++ p.waiting ++ p.running, texts[job.place]? = some job.text
  results : ∀ r ∈ p.finished ++ p.taken, texts[r.1]?.map (transform setup) = some r.2

theorem kept_start (setup : Setup) (texts : List Text) : Kept setup texts (start texts) := by
  constructor
  · simp [places, start, jobs_eq, Function.comp_def]
  · intro job hjob
    obtain ⟨place, hplace, rfl⟩ : ∃ place, ∃ h : place < texts.length,
        ⟨place, texts[place]⟩ = job := by simpa [start, Conversion.jobs] using hjob
    simp [hplace]
  · intro r hr
    simp [start] at hr

/-- A step moves one place from one part of the pool to another. -/
theorem Step.places_perm {p q : Pool} (h : Step setup workers p q) : q.places.Perm p.places := by
  apply List.perm_iff_count.mpr
  intro place
  cases h <;>
    simp only [places, List.map_append, List.map_cons, List.map_nil, List.count_append,
      List.count_cons, List.count_nil, List.nil_append] <;>
    omega

/-- **Every step keeps what the pool keeps.** -/
theorem Kept.step {p q : Pool} (hp : Kept setup texts p) (h : Step setup workers p q) :
    Kept setup texts q := by
  refine ⟨h.places_perm.trans hp.places, ?_, ?_⟩
  · intro job hjob
    apply hp.jobs job
    cases h <;> simp only [List.mem_append, List.mem_cons] at hjob ⊢ <;> grind
  · intro r hr
    cases h with
    | send => exact hp.results r hr
    | takeUp => exact hp.results r hr
    | finish job unsent waiting before after finished taken =>
      rcases List.mem_cons.mp hr with rfl | hr
      · -- the worker has converted the document of its job
        have htext := hp.jobs job (by simp)
        rw [htext]
        rfl
      · exact hp.results r hr
    | take result waiting running before after taken =>
      apply hp.results r
      simp only [List.mem_append, List.mem_cons] at hr ⊢
      grind

theorem Kept.runs {p q : Pool} (hp : Kept setup texts p) (h : Runs setup workers p q) :
    Kept setup texts q := by
  induction h with
  | refl => exact hp
  | step _ hstep ih => exact ih.step hstep

/-- When a pool is over, the results taken are those of all documents. -/
theorem Kept.arrange_taken {p : Pool} (hp : Kept setup texts p) (hover : p.IsOver) :
    arrange texts.length p.taken = texts.map (transform setup) := by
  obtain ⟨hunsent, hwaiting, hrunning, hfinished⟩ := hover
  have hplaces : (p.taken.map (·.1)).Perm (List.range texts.length) := by
    simpa [Pool.places, hunsent, hwaiting, hrunning, hfinished] using hp.places
  have htaken : transformAt setup texts (p.taken.map (·.1)) = p.taken :=
    transformAt_places fun r hr => hp.results r (List.mem_append_right _ hr)
  calc arrange texts.length p.taken
      = transformInOrder setup (p.taken.map (·.1)) texts := by rw [transformInOrder, htaken]
    _ = texts.map (transform setup) := transformInOrder_eq_map setup fun i hi =>
        hplaces.mem_iff.mpr (List.mem_range.mpr hi)

/-! ### Runs come to their end -/

/-- **A pool with something left to be done goes on.** -/
theorem isOver_or_step (setup : Setup) (hworkers : 0 < workers) (p : Pool) :
    p.IsOver ∨ ∃ q, Step setup workers p q := by
  obtain ⟨unsent, waiting, running, finished, taken⟩ := p
  cases unsent with
  | cons job unsent => exact .inr ⟨_, .send job unsent waiting running finished taken⟩
  | nil =>
    cases finished with
    | cons result finished => exact .inr ⟨_, .take result waiting running [] finished taken⟩
    | nil =>
      cases running with
      | cons job running => exact .inr ⟨_, .finish job [] waiting [] running [] taken⟩
      | nil =>
        cases waiting with
        | cons job waiting => exact .inr ⟨_, .takeUp job [] waiting [] [] taken hworkers⟩
        | nil => exact .inl ⟨rfl, rfl, rfl, rfl⟩

/-- How many steps are left: four for a document that has not been handed over, and fewer the
    further it has come. -/
def remaining (p : Pool) : Nat :=
  4 * p.unsent.length + 3 * p.waiting.length + 2 * p.running.length + p.finished.length

theorem Step.remaining_lt {p q : Pool} (h : Step setup workers p q) :
    q.remaining < p.remaining := by
  cases h <;> simp only [remaining, List.length_append, List.length_cons, List.length_nil] <;>
    omega

/-- **No run goes on for ever.** -/
theorem wellFounded_step (setup : Setup) (workers : Nat) :
    WellFounded fun q p => Step setup workers p q :=
  Subrelation.wf (fun h => h.remaining_lt) (InvImage.wf remaining Nat.lt_wfRel.wf)

theorem exists_over {p q : Pool} (hworkers : 0 < workers) (h : Runs setup workers p q) :
    ∃ r, Runs setup workers p r ∧ r.IsOver := by
  induction q using (wellFounded_step setup workers).induction with
  | h q ih =>
    rcases isOver_or_step setup hworkers q with hover | ⟨r, hstep⟩
    · exact ⟨q, h, hover⟩
    · exact ih r hstep (h.step hstep)

/-! ### Runs in every order -/

section

variable {p : Pool} {waiting running : List Job} {finished taken : List (Nat × Result)}

theorem Runs.sendAll {unsent : List Job}
    (h : Runs setup workers p ⟨unsent, waiting, running, finished, taken⟩) :
    Runs setup workers p ⟨[], waiting ++ unsent, running, finished, taken⟩ := by
  induction unsent generalizing waiting with
  | nil => simpa using h
  | cons job unsent ih =>
    have hsent := ih (h.step (.send job unsent waiting running finished taken))
    simpa using hsent

theorem Runs.takeUpAll (h : Runs setup workers p ⟨[], waiting, running, finished, taken⟩)
    (hworkers : running.length + waiting.length ≤ workers) :
    Runs setup workers p ⟨[], [], waiting.reverse ++ running, finished, taken⟩ := by
  induction waiting generalizing running with
  | nil => simpa using h
  | cons job waiting ih =>
    simp only [List.length_cons] at hworkers
    have hfree : running.length < workers := by omega
    have htakenUp := ih (h.step (.takeUp job [] waiting running finished taken hfree))
      (by simp only [List.length_cons]; omega)
    simpa using htakenUp

/-- Workers are done in any order `done`, and each result is taken at once. -/
theorem Runs.finishAll {done : List Job} (hdone : done.Perm running)
    (h : Runs setup workers p ⟨[], [], running, [], taken⟩) :
    Runs setup workers p ⟨[], [], [], [],
      (done.map fun job => (job.place, transform setup job.text)).reverse ++ taken⟩ := by
  induction done generalizing running taken with
  | nil =>
    rw [List.nil_perm.mp hdone] at h
    exact h
  | cons job done ih =>
    obtain ⟨before, after, rfl⟩ := List.append_of_mem (hdone.subset List.mem_cons_self)
    have hrest : done.Perm (before ++ after) :=
      (hdone.trans List.perm_middle).cons_inv
    have hfinished := h.step (.finish job [] [] before after [] taken)
    have htaken := hfinished.step (.take _ [] (before ++ after) [] [] taken)
    have hall := ih hrest htaken
    simpa using hall

end

/-- **With enough workers the results come in every order.** -/
theorem exists_run_of_perm (setup : Setup) {order : List Nat}
    (horder : order.Perm (List.range texts.length)) (hworkers : texts.length ≤ workers) :
    ∃ p, Runs setup workers (start texts) p ∧ p.IsOver ∧ p.taken.map (·.1) = order.reverse := by
  have hsent : Runs setup workers (start texts) ⟨[], [] ++ jobs texts, [], [], []⟩ :=
    Runs.refl.sendAll
  have hrunning := hsent.takeUpAll (by simpa [jobs_eq] using hworkers)
  have hdone : (order.map fun place => (⟨place, texts.getD place []⟩ : Job)).Perm
      (([] ++ jobs texts).reverse ++ []) := by
    rw [List.nil_append, List.append_nil, jobs_eq]
    exact (horder.map _).trans (List.reverse_perm _).symm
  refine ⟨_, hrunning.finishAll hdone, ⟨rfl, rfl, rfl, rfl⟩, ?_⟩
  simp [Function.comp_def]

end Pool

/-! ### Answers -/

/-- **Results come in the order of their documents.**  For every setup, every number of workers
    that is wanted and all documents:

    * whatever run the pool takes, the answer is the list of the results, document by document,
      and there is one;
    * a run goes on as long as something is left to be done, but not for ever;
    * the results may be brought together in any order of the places, and with as many workers
      as documents there is a run that takes them in that order. -/
theorem answers_in_order (setup : Setup) (wanted : Int) (texts : List Text) :
    (∀ results, Answers setup wanted texts results ↔ results = texts.map (transform setup)) ∧
    (∀ p, Pool.Runs setup (workerCount wanted texts.length) (.start texts) p →
      p.IsOver ∨ ∃ q, Pool.Step setup (workerCount wanted texts.length) p q) ∧
    (WellFounded fun q p => Pool.Step setup (workerCount wanted texts.length) p q) ∧
    ∀ order : List Nat, order.Perm (List.range texts.length) →
      transformInOrder setup order texts = texts.map (transform setup) ∧
      ((texts.length : Int) ≤ wanted →
        ∃ p, Pool.Runs setup (workerCount wanted texts.length) (.start texts) p ∧ p.IsOver ∧
          p.taken.map (·.1) = order.reverse) := by
  have hworkers := workerCount_pos wanted texts.length
  refine ⟨?_, fun p _ => Pool.isOver_or_step setup hworkers p, Pool.wellFounded_step setup _, ?_⟩
  · intro results
    constructor
    · intro hanswer
      cases hanswer with
      | alone => rfl
      | pooled _ hrun hover => exact ((Pool.kept_start setup texts).runs hrun).arrange_taken hover
    · rintro rfl
      by_cases hfew : texts.length ≤ 1
      · exact .alone hfew
      · obtain ⟨p, hrun, hover⟩ := Pool.exists_over hworkers
          (.refl : Pool.Runs setup (workerCount wanted texts.length) (.start texts) _)
        rw [← ((Pool.kept_start setup texts).runs hrun).arrange_taken hover]
        exact .pooled (Nat.not_le.mp hfew) hrun hover
  · intro order horder
    constructor
    · apply transformInOrder_eq_map
      intro i hi
      exact horder.mem_iff.mpr (List.mem_range.mpr hi)
    · intro hwanted
      exact Pool.exists_run_of_perm setup horder (length_le_workerCount hwanted)

end TexMark.Conversion
