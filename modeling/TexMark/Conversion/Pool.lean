/-
  TexMark/Conversion/Pool.lean
  ============================
  **Several documents at once.** The documents are handed over to a pool of workers, one
  after the other. A free worker takes up the document that has waited longest, but workers
  are done in any order, and so their results are taken in any order. Each result is kept
  with the place of its document, and in the end `arrange` brings the results into the order
  of the documents.

  A step of the pool is one of these events (`Pool.Step`), and whatever steps a run consists
  of, `Answers` says what is answered when nothing is left to be done.

  The pool is that of `transform_many`.
-/
import TexMark.Conversion

namespace TexMark.Conversion

/-- A document to be converted, with its place among the others. Equal documents are
    different jobs. -/
structure Job where
  place : Nat
  text : Text
deriving DecidableEq, Repr

/-- The documents as jobs, in their order. -/
def jobs (texts : List Text) : List Job := texts.mapIdx fun place text => ⟨place, text⟩

/-- How many workers there are: as many as are wanted, but not more than documents, and one
    at least. -/
def workerCount (wanted : Int) (documents : Nat) : Nat := (max 1 (min wanted documents)).toNat

/-- How far the conversion of several documents has come. -/
structure Pool where
  /-- Documents that have not been handed over, in their order. -/
  unsent : List Job
  /-- Documents that wait for a worker, the first one longest. -/
  waiting : List Job
  running : List Job
  /-- Results that are there to be taken, each with the place of its document. -/
  finished : List (Nat × Result)
  /-- Results that have been taken, the last one first. -/
  taken : List (Nat × Result)

namespace Pool

def start (texts : List Text) : Pool := ⟨jobs texts, [], [], [], []⟩

/-- Nothing is left to be done. -/
def IsOver (p : Pool) : Prop :=
  p.unsent = [] ∧ p.waiting = [] ∧ p.running = [] ∧ p.finished = []

/-- One event in a pool of so many workers. Results are taken when all documents have been
    handed over. -/
inductive Step (setup : Setup) (workers : Nat) : Pool → Pool → Prop where
  | send (job : Job) (unsent waiting running : List Job) (finished taken : List (Nat × Result)) :
    Step setup workers ⟨job :: unsent, waiting, running, finished, taken⟩
      ⟨unsent, waiting ++ [job], running, finished, taken⟩
  | takeUp (job : Job) (unsent waiting running : List Job)
    (finished taken : List (Nat × Result)) (hfree : running.length < workers) :
    Step setup workers ⟨unsent, job :: waiting, running, finished, taken⟩
      ⟨unsent, waiting, job :: running, finished, taken⟩
  | finish (job : Job) (unsent waiting before after : List Job)
    (finished taken : List (Nat × Result)) :
    Step setup workers ⟨unsent, waiting, before ++ job :: after, finished, taken⟩
      ⟨unsent, waiting, before ++ after, (job.place, transform setup job.text) :: finished, taken⟩
  | take (result : Nat × Result) (waiting running : List Job)
    (before after taken : List (Nat × Result)) :
    Step setup workers ⟨[], waiting, running, before ++ result :: after, taken⟩
      ⟨[], waiting, running, before ++ after, result :: taken⟩

/-- Any number of events. -/
inductive Runs (setup : Setup) (workers : Nat) (p : Pool) : Pool → Prop where
  | refl : Runs setup workers p p
  | step {q r : Pool} (hrun : Runs setup workers p q) (hstep : Step setup workers q r) :
    Runs setup workers p r

end Pool

/-- What is answered for several documents: a single one is converted without a pool
    (`transform_many`). -/
inductive Answers (setup : Setup) (wanted : Int) (texts : List Text) : List Result → Prop where
  | alone (hfew : texts.length ≤ 1) : Answers setup wanted texts (texts.map (transform setup))
  | pooled (hmany : 1 < texts.length) {p : Pool}
    (hrun : Pool.Runs setup (workerCount wanted texts.length) (.start texts) p)
    (hover : p.IsOver) : Answers setup wanted texts (arrange texts.length p.taken)

end TexMark.Conversion
