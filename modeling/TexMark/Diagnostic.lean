/-
  TexMark/Diagnostic.lean
  =======================
  **Diagnostics.** A conversion never stops at a fault of the document: it reports the
  fault and goes on. A diagnostic says what kind of fault it is, in which words, and at
  which offset of the text that was being read.

  `Noted` is a result together with the diagnostics reported on the way to it. The result
  may also be a `Fault`: something that a pass could not deal with. The diagnostics
  reported before a fault are kept.

  `DiagnosticKind` and `Diagnostic` keep their names; `Noted.report` is the `report` of a
  `ConversionContext`, `Diagnostic.count` its `count`.
-/
import TexMark.Edit
import TexMark.Text.Integer

namespace TexMark

/-- The kinds of faults that a conversion reports. -/
inductive DiagnosticKind where
  | delimiterMismatch
  | environmentMismatch
  | unmatchedEnvironment
  | invalidNesting
  | unknownEnvironment
  | invalidMacroName
  | arityMismatch
  | duplicateLabel
  | undefinedReference
  | citationKeyError
  | phaseFailure
deriving DecidableEq, Repr

namespace DiagnosticKind

def all : List DiagnosticKind :=
  [delimiterMismatch, environmentMismatch, unmatchedEnvironment, invalidNesting,
    unknownEnvironment, invalidMacroName, arityMismatch, duplicateLabel,
    undefinedReference, citationKeyError, phaseFailure]

def name : DiagnosticKind → Text
  | delimiterMismatch => "DelimiterMismatch"
  | environmentMismatch => "EnvironmentMismatch"
  | unmatchedEnvironment => "UnmatchedEnvironment"
  | invalidNesting => "InvalidNesting"
  | unknownEnvironment => "UnknownEnvironment"
  | invalidMacroName => "InvalidMacroName"
  | arityMismatch => "ArityMismatch"
  | duplicateLabel => "DuplicateLabel"
  | undefinedReference => "UndefinedReference"
  | citationKeyError => "CitationKeyError"
  | phaseFailure => "PhaseFailure"

def ofName? (t : Text) : Option DiagnosticKind := all.find? fun k => k.name == t

end DiagnosticKind

/-- A **diagnostic**: one fault of a document. -/
structure Diagnostic where
  kind : DiagnosticKind
  message : Text
  position : Int
deriving DecidableEq, Repr

/-- How many of the diagnostics are of a kind (`count`). -/
def Diagnostic.count (kind : DiagnosticKind) (ds : List Diagnostic) : Nat :=
  ds.countP fun d => d.kind == kind

/-- What a pass over a document cannot deal with. -/
inductive Fault where
  /-- A number of arguments that is written in digits but is no integer. -/
  | integer (error : Integer.ReadError)
  /-- Edits that do not fit into their window. -/
  | misfit (error : Edit.Misfit)
deriving DecidableEq, Repr

def Fault.message : Fault → Text
  | .integer error => error.message
  | .misfit error => error.message

/-- A result, or the fault that prevented it, with the diagnostics reported up to there. -/
structure Noted (α : Type) where
  notes : List Diagnostic
  result : Except Fault α

namespace Noted

variable {α β : Type}

protected def pure (a : α) : Noted α := ⟨[], .ok a⟩

/-- Goes on from a result; the diagnostics of both parts stand in their order. -/
protected def bind (x : Noted α) (f : α → Noted β) : Noted β :=
  match x.result with
  | .error fault => ⟨x.notes, .error fault⟩
  | .ok a => ⟨x.notes ++ (f a).notes, (f a).result⟩

instance monadNoted : Monad Noted where
  pure := Noted.pure
  bind := Noted.bind

theorem bind_of_ok {x : Noted α} {a : α} (h : x.result = .ok a) (f : α → Noted β) :
    x >>= f = ⟨x.notes ++ (f a).notes, (f a).result⟩ := by
  change Noted.bind x f = _
  simp [Noted.bind, h]

theorem bind_of_error {x : Noted α} {fault : Fault} (h : x.result = .error fault)
    (f : α → Noted β) : x >>= f = ⟨x.notes, .error fault⟩ := by
  change Noted.bind x f = _
  simp [Noted.bind, h]

instance lawfulNoted : LawfulMonad Noted := LawfulMonad.mk' Noted
  (fun x => by
    change Noted.bind x (fun a => Noted.pure a) = x
    obtain ⟨notes, result⟩ := x
    cases result <;> simp [Noted.bind, Noted.pure])
  (fun a f => by
    change Noted.bind (Noted.pure a) f = f a
    simp [Noted.bind, Noted.pure])
  (fun x f g => by
    change Noted.bind (Noted.bind x f) g = Noted.bind x fun a => Noted.bind (f a) g
    obtain ⟨notes, result⟩ := x
    cases result with
    | error => simp [Noted.bind]
    | ok a => cases h : (f a).result <;> simp [Noted.bind, h])

/-- Reports a fault at an offset (`report`). -/
def report (kind : DiagnosticKind) (message : Text) (position : Nat) : Noted Unit :=
  ⟨[⟨kind, message, position⟩], .ok ()⟩

def fail (fault : Fault) : Noted α := ⟨[], .error fault⟩

/-- Applies the edits that a pass has collected to the window of a text. -/
def editedWithin (text : Text) (start stop : Nat) (edits : List Edit) : Noted Text :=
  ⟨[], (Edit.applyWithin text start stop edits).mapError .misfit⟩

/-- Applies the edits that a pass has collected to a whole text. -/
def edited (text : Text) (edits : List Edit) : Noted Text :=
  editedWithin text 0 text.length edits

end Noted

end TexMark
