/-
  TexMark/Service/Request.lean
  ============================
  **The conversion service.** The service answers requests: it converts one document or
  several, and tells its state. A request is checked from the outside to the inside: its
  body, the documents, the direction, the options. The first check that fails decides the
  answer, and an answer holds either an error or all results. Some requests are left without
  answer: when their length is none, when the body cannot be read for another reason than that
  it is malformed, and when it nests deeper than the reader of JSON can go.

  `Service.respond` is `do_GET` and `do_POST`, with `_handle_transform`, `_handle_batch`,
  `_read_json` and `_read_options` behind it.
-/
import TexMark.Config.Fields
import TexMark.Conversion
import TexMark.Json.Reader
import TexMark.Text.Encoding

namespace TexMark.Service

/-! ### Requests and responses -/

/-- The methods that the service knows. -/
inductive Method where
  | get
  | post
deriving DecidableEq, Repr

/-- Why nothing is read from a stream. -/
inductive ReadFault where
  /-- The length is negative, and not the one that asks for everything. -/
  | negative
  /-- The length does not fit into a signed word of 64 bits. -/
  | unindexable
  /-- No bytes are that many. -/
  | tooLong
  | noMemory
deriving DecidableEq, Repr

def ReadFault.message : ReadFault → Text
  | negative => "read length must be non-negative or -1"
  | unindexable => "cannot fit 'int' into an index-sized integer"
  | tooLong => "byte string is too large"
  | noMemory => []

/-- What a read of a length gives. -/
abbrev Stream := Int → Except ReadFault Encoding.Bytes

/-- No bytes are so many: what holds them in memory has a head of its own. -/
def tooManyBytes : Int := (Nat.pow 2 63 : Int) - 33

/-- A request. The length of its body is announced in a header of its own. -/
structure Request where
  method : Method
  path : Text
  contentLength? : Option Text
  body : Stream

/-- A response. -/
structure Response where
  status : Nat
  body : Json

def contentType : Text := "application/json"

def name : Text := "texmd"

def version : Text := "0.1.0"

/-! ### Refusals -/

/-- Why a request is refused. -/
inductive Refusal where
  | notFound
  | emptyBody
  | notJson
  | notObject
  | noText
  | noDocuments
  | badDirection
  | configNotObject
  | badConfig (error : ConfigError)
deriving DecidableEq, Repr

namespace Refusal

def status : Refusal → Nat
  | notFound => 404
  | _ => 400

def code : Refusal → Text
  | notFound => "NOT_FOUND"
  | emptyBody => "INVALID_JSON"
  | notJson => "INVALID_JSON"
  | notObject => "INVALID_JSON"
  | _ => "INVALID_REQUEST"

def message : Refusal → Text
  | notFound => "Not found"
  | emptyBody => "Request body is empty"
  | notJson => "Invalid JSON: ..."
  | notObject => "Request body must be a JSON object"
  | noText => "text field is required"
  | noDocuments => "documents must be a list of strings"
  | badDirection => "direction must be 'forward' or 'reverse'"
  | configNotObject => "config must be an object"
  | badConfig error => error.message

/-- The names of the options, which help with options that are refused. -/
def details : Refusal → List (Text × Json)
  | badConfig _ =>
    [("details", .obj [("fields",
      .arr ((Text.sort (ConfigField.all.map ConfigField.name)).map .str))])]
  | _ => []

def response (r : Refusal) : Response :=
  ⟨r.status, .obj (("error", .str r.message) :: ("code", .str r.code) :: r.details)⟩

end Refusal

/-! ### Reading requests -/

/-- Why a request is left without answer. -/
inductive NoAnswer where
  /-- The announced length is none. -/
  | notInteger (error : Integer.ReadError)
  /-- The body cannot be read. -/
  | unread (fault : ReadFault)
  /-- The bracket opens what lies too deep in the body. -/
  | tooDeep (bracket : Char)
deriving DecidableEq, Repr

def NoAnswer.message : NoAnswer → Text
  | notInteger error => error.message
  | unread fault => fault.message
  | tooDeep bracket =>
    let what : Text := if bracket = '[' then "array" else "object"
    "maximum recursion depth exceeded while decoding a JSON " ++ what ++ " from a unicode string"

/-- The value of a header: it begins behind the blanks at its head and ends with its line. -/
def headerValue (t : Text) : Text :=
  (t.dropWhile fun c => c == ' ' || c == '\t').takeWhile fun c => c != '\r' && c != '\n'

/-- The announced length of a body; zero if none is announced. -/
def announcedLength (r : Request) : Except NoAnswer Int :=
  match r.contentLength? with
  | none => .ok 0
  | some t => (Integer.read (headerValue t)).mapError .notInteger

/-- The value that a body is read as. At most `nesting` arrays and objects lie in each other. -/
def valueOf (nesting : Nat) (body : Encoding.Bytes) : Except Json.ReadError Json :=
  match Encoding.decodeAny? body with
  | none => .error .malformed
  | some t => Json.read nesting t

/-- The value of the body of a request. A length that may not be read counts as a malformed
    body. -/
def readValue (nesting : Nat) (r : Request) : Except NoAnswer (Except Refusal Json) := do
  let length ← announcedLength r
  if length = 0 then return .error .emptyBody
  match r.body length with
  | .error .negative => return .error .notJson
  | .error fault => .error (.unread fault)
  | .ok body => match valueOf nesting body with
    | .error .malformed => return .error .notJson
    | .error (.tooDeep bracket) => .error (.tooDeep bracket)
    | .ok v => return .ok v

def readMembers : Json → Except Refusal (Table Json)
  | .obj members => .ok members
  | _ => .error .notObject

/-- The members of the object that a request has as its body (`_read_json`). -/
def readObject (nesting : Nat) (r : Request) : Except NoAnswer (Except Refusal (Table Json)) :=
  (readValue nesting r).map fun value => value.bind readMembers

def readText (members : Table Json) : Except Refusal Text :=
  match members.get? "text" with
  | some (.str t) => .ok t
  | _ => .error .noText

def readDocuments (members : Table Json) : Except Refusal (List Text) :=
  match (members.get? "documents").bind fun v => v.items?.bind fun items => items.mapM Json.text? with
  | some documents => .ok documents
  | none => .error .noDocuments

/-- The direction of a request; forward if it has none. -/
def readDirection (members : Table Json) : Except Refusal Direction :=
  match members.get? "direction" with
  | none => .ok .forward
  | some v => match v.text?.bind Direction.ofName? with
    | some d => .ok d
    | none => .error .badDirection

/-- The options of a request, over those of the service. -/
def readConfig (base : Config) (members : Table Json) : Except Refusal Config :=
  match (members.get? "config").getD (.obj []) with
  | .obj overrides => (Config.ofMembers (base.members.merge overrides)).mapError .badConfig
  | _ => .error .configNotObject

/-- The direction of a request, and its options (`_read_options`). -/
def readSetup (base : Config) (members : Table Json) : Except Refusal Setup := do
  let direction ← readDirection members
  let config ← readConfig base members
  return .ofConfig config direction

/-! ### Answers -/

def diagnosticJson (d : Diagnostic) : Json :=
  .obj [("kind", .str d.kind.name), ("message", .str d.message), ("position", .int d.position)]

def resultMembers (r : Conversion.Result) : List (Text × Json) :=
  [("text", .str r.text), ("diagnostics", .arr (r.diagnostics.map diagnosticJson))]

/-- The time that a conversion took, which is left open here. -/
def elapsed : Text × Json := ("time_ms", .int 0)

/-- The time since the service began, which is left open here. -/
def uptime : Text × Json := ("uptime_seconds", .int 0)

/-- Converts one document (`_handle_transform`). -/
def transform (base : Config) (members : Table Json) : Except Refusal Json := do
  let text ← readText members
  let setup ← readSetup base members
  return .obj (resultMembers (Conversion.transform setup text) ++ [elapsed])

/-- Converts several documents; the results stand in the order of the documents
    (`_handle_batch`). -/
def transformBatch (base : Config) (members : Table Json) : Except Refusal Json := do
  let documents ← readDocuments members
  let setup ← readSetup base members
  let results := Conversion.transformAll setup documents
  return .obj [("results", .arr (results.map fun r => .obj (resultMembers r))), elapsed]

/-- Tells that the service runs (`_handle_health`). -/
def health : Json := .obj [("status", .str "ok"), ("service", .str name), uptime]

def phaseNames (d : Direction) : Json := .arr (d.phases.map fun p => .str p.name)

/-- Tells the options and the phases of the service (`_handle_status`). -/
def status (base : Config) : Json :=
  .obj [("service", .str name), ("version", .str version), uptime, ("config", base.json),
    ("phases", .obj [("forward", phaseNames .forward), ("reverse", phaseNames .reverse)])]

/-- The response to a request that was read or refused. -/
def responseOf : Except Refusal Json → Response
  | .ok body => ⟨200, body⟩
  | .error refusal => refusal.response

/-- The path that a request asks for. Several slashes at its head count as one. -/
def Request.target (r : Request) : Text :=
  match r.path with
  | '/' :: '/' :: rest => '/' :: rest.dropWhile (· == '/')
  | path => path

/-- Answers a request, or leaves it without answer (`do_GET` and `do_POST`). -/
def respond (base : Config) (nesting : Nat) (r : Request) : Except NoAnswer Response :=
  match r.method with
  | .get =>
    if r.target = "/health".toList then .ok ⟨200, health⟩
    else if r.target = "/status".toList then .ok ⟨200, status base⟩
    else .ok Refusal.notFound.response
  | .post =>
    if r.target = "/transform".toList then do
      return responseOf ((← readObject nesting r).bind (transform base))
    else if r.target = "/transform/batch".toList then do
      return responseOf ((← readObject nesting r).bind (transformBatch base))
    else .ok Refusal.notFound.response

end TexMark.Service
