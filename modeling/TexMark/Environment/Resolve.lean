/-
  TexMark/Environment/Resolve.lean
  ================================
  **Finding environments.** One scan from left to right opens a frame at each beginning and
  closes it at its end. A frame keeps the edits of the environments inside it; when it
  closes they are applied to its content, the content is converted, and the result is one
  edit of the frame around it.

  Structure that does not fit never stops the scan. A nesting that is not allowed is reported
  and goes ahead. An end that does not belong to the innermost frame leaves the frames up to
  its own as they are written, and so does the end of the text with the frames still open;
  what was converted inside them stays converted.

  The scan is `resolve` of `EnvironmentResolver`, with `_open` and `_close`.
-/
import TexMark.Environment.Frame
import TexMark.Environment.Token
import TexMark.Markup.Group

namespace TexMark.Environment

/-- How far the scan has come: the open frames, the innermost first, the edits outside all
    of them, the offset behind what has been read, and the counters. -/
structure Progress where
  stack : List Frame
  edits : List Edit
  cursor : Nat
  register : TheoremRegister
  equations : Nat

def Progress.start (register : TheoremRegister) (equations : Nat) : Progress :=
  ⟨[], [], 0, register, equations⟩

/-- Is an environment converted (`is_tracked`)? -/
def isTracked (settings : Settings) (register : TheoremRegister) (name : Text) : Bool :=
  (settings.convertLegacy || !legacyNames.contains name) &&
    (settings.converters.has name || settings.extraNames.contains name ||
      isTheorem register name)

/-- Adds edits to the innermost frame, or to those outside all frames. -/
def addEdits (stack : List Frame) (outside more : List Edit) : List Frame × List Edit :=
  match stack with
  | [] => ([], outside ++ more)
  | f :: fs => ({ f with edits := f.edits ++ more } :: fs, outside)

def Progress.add (s : Progress) (more : List Edit) : Progress :=
  let (stack, edits) := addEdits s.stack s.edits more
  { s with stack := stack, edits := edits }

/-! ### Beginnings -/

/-- Does other text than declarations stand before an offset on its line? -/
def isInline (text : Text) (pos : Nat) : Bool :=
  let before := Text.slice text (Scan.lineStart text pos) pos
  !Text.isBlankText (Scan.replace NewTheorem.erased before)

/-- The frame that begins with a token, and the register with its instance counted. -/
def frameAt (settings : Settings) (register : TheoremRegister) (text : Text) (name : Text)
    (start stop : Nat) : Frame × TheoremRegister :=
  let rest := text.drop stop
  let offset (after : Text) : Nat := text.length - after.length
  let known := settings.converters.has name
  if argumentNames.contains name && known then
    match Group.braces? rest with
    | some (argument, after) =>
      (⟨name, start, offset after, [], some argument, none, none, false⟩, register)
    | none => (⟨name, start, stop, [], none, none, none, false⟩, register)
  else if isTheorem register name && !known then
    let (number?, register') := register.nextNumber name
    let inline := isInline text start
    match Group.brackets? (rest.dropWhile Text.isLineBlank) with
    | some (title, after) =>
      (⟨name, start, offset after, [], none, number?, some title, inline⟩, register')
    | none => (⟨name, start, stop, [], none, number?, none, inline⟩, register')
  else (⟨name, start, stop, [], none, none, none, false⟩, register)

/-- Opens a frame, and reports a nesting that is not allowed (`_open`). -/
def openFrame (settings : Settings) (text : Text) (s : Progress) (name : Text)
    (start stop : Nat) : Noted Progress :=
  if !isTracked settings s.register name then pure s
  else do
    match s.stack with
    | [] => pure ()
    | outer :: _ =>
      if !mayNest outer.name name then
        Noted.report .invalidNesting
          (name ++ " cannot be nested inside " ++ outer.name) start
    let (frame, register) := frameAt settings s.register text name start stop
    return { s with stack := frame :: s.stack, cursor := frame.contentStart, register := register }

/-! ### Ends -/

/-- The edits of frames that are given up, the innermost first, as they reach the frame
    around them. -/
def surrendered (frames : List Frame) : List Edit :=
  frames.foldl (fun inner f => f.edits ++ inner) []

/-- Reports frames that the end of another environment has closed. -/
def reportUnwound (name : Text) (frames : List Frame) : Noted Unit :=
  frames.forM fun f =>
    Noted.report .environmentMismatch
      (Markup.beginMarker f.name ++ " closed by " ++ Markup.endMarker name) f.start

def convertFrame (settings : Settings) (text : Text) (s : Progress) (frame : Frame)
    (outer : List Frame) (start stop : Nat) : Noted Progress := do
  let content ← Noted.editedWithin text frame.contentStart start frame.edits
  let (converted, equations) ← frame.convert settings s.register content s.equations
  return { s with stack := outer, equations := equations }.add [⟨frame.start, stop, converted⟩]

/-- Closes the frame that an end belongs to (`_close`). -/
def closeFrame (settings : Settings) (text : Text) (s : Progress) (name : Text)
    (start stop : Nat) : Noted Progress :=
  if !isTracked settings s.register name then pure s
  else
    let above := s.stack.takeWhile fun f => f.name != name
    match s.stack.drop above.length with
    | [] => do
      let expected := match s.stack with
        | [] => "no open environment"
        | f :: _ => Markup.endMarker f.name
      Noted.report .environmentMismatch
        (Markup.endMarker name ++ " found where " ++ expected ++ " was expected") start
      return s
    | frame :: outer =>
      if above.isEmpty then convertFrame settings text s frame outer start stop
      else do
        reportUnwound name above
        return { s with stack := outer }.add (surrendered (above ++ [frame]))

/-! ### The scan -/

/-- Takes the next mark of structure, unless it is escaped or has been read already. -/
def step (settings : Settings) (text : Text) (s : Progress) (h : Hit Token) : Noted Progress :=
  if h.start < s.cursor ∨ Scan.isEscaped text h.start then pure s
  else match h.value with
    | .opening name => openFrame settings text s name h.start h.stop
    | .closing name => closeFrame settings text s name h.start h.stop
    | .section_ starred =>
      if starred then pure s
      else pure { s with register := s.register.enterSection (s.register.sectionNumber + 1) }
    | .declaration =>
      match NewTheorem.read? (text.drop h.start) with
      | none => pure s
      | some (command, after) =>
        let stop := text.length - after.length
        let register := s.register.declare (TheoremRegister.kindOf command)
        pure { s.add [⟨h.start, stop, []⟩] with cursor := stop, register := register }

/-- Reports the frames that the text never closes, and gives them up. -/
def finish (s : Progress) : Noted Progress := do
  s.stack.forM fun f =>
    Noted.report .unmatchedEnvironment (Markup.beginMarker f.name ++ " is never closed") f.start
  return { s with stack := [], edits := s.edits ++ surrendered s.stack }

/-- What the conversion of a document's environments leaves. -/
structure Resolved where
  text : Text
  register : TheoremRegister
  equations : Nat

/-- Converts the environments of a text (`resolve`). -/
def resolve (settings : Settings) (register : TheoremRegister) (equations : Nat) (text : Text) :
    Noted Resolved := do
  let scanned ← (Scan.hits token text).foldlM (step settings text) (.start register equations)
  let s ← finish scanned
  return ⟨← Noted.edited text s.edits, s.register, s.equations⟩

end TexMark.Environment
