/-
  TexMark/Definition.lean
  =======================
  **Macro definitions.** A document defines macros with `\newcommand` and its kin, with
  `\def`, and with `\DeclareMathOperator`. `Definition.collect` takes the definitions out
  of the text and answers the table of macros. A definition that cannot be read, or whose
  name or number of arguments is not valid, stays in the text and is reported.

  The readers are `_read_name`, `_parse_newcommand`, `_parse_def` and `_parse_operator`;
  `Definition.collect` is `collect_definitions`.
-/
import TexMark.Macro

namespace TexMark

namespace Definition

/-! ### Commands that define -/

/-- A command that begins a definition. -/
inductive Head where
  | newcommand
  | renewcommand
  /-- Defines only what has no definition yet. -/
  | providecommand
  /-- Declares the name of an operator; the starred form sets limits below it. -/
  | operator (starred : Bool)
  | def_
deriving DecidableEq, Repr

def Head.name : Head → Text
  | newcommand => "newcommand"
  | renewcommand => "renewcommand"
  | providecommand => "providecommand"
  | operator _ => "DeclareMathOperator"
  | def_ => "def"

/-- Reads a defining command, with its star if it has one. -/
def head : Recognizer Head := fun _ rest =>
  let starred (h : Bool → Head) (t : Text) : Head × Text :=
    let (star, after) := Markup.star t
    (h star, after)
  ((Markup.command? "newcommand" rest).map (starred fun _ => .newcommand)) <|>
  ((Markup.command? "renewcommand" rest).map (starred fun _ => .renewcommand)) <|>
  ((Markup.command? "providecommand" rest).map (starred fun _ => .providecommand)) <|>
  ((Markup.command? "DeclareMathOperator" rest).map (starred .operator)) <|>
  ((Markup.word? "def" rest).map fun after => (.def_, after))

/-! ### Reading a definition -/

/-- The number of arguments of a definition: as it is written, or as many as there are
    parameters. -/
inductive Arity where
  | written (t : Text)
  | counted (n : Nat)
deriving DecidableEq, Repr

def Arity.text : Arity → Text
  | written t => t
  | counted n => Text.ofNat n

/-- A definition as it is written: neither its name nor its number of arguments has been
    checked. -/
structure Draft where
  name : Text
  arity : Arity
  default? : Option Text
  body : Text

/-- Reads the name that is defined, in braces or bare (`_read_name`). -/
def name? (t : Text) : Option (Text × Text) :=
  if t.head? = some '{' then (Group.braces? t).map fun (inner, rest) => (Text.strip inner, rest)
  else Markup.controlSequence? t

/-- Reads an optional group in brackets, with the blanks behind it: nothing if there is no
    bracket, a failure if the bracket never closes. -/
def optional? (t : Text) : Option (Option Text × Text) :=
  if t.head? = some '[' then
    (Group.brackets? t).map fun (inner, rest) => (some inner, Group.skipSpaces rest)
  else some (none, t)

/-- Reads the name, the number of arguments, the default and the body of a definition
    (`_parse_newcommand`). -/
def newcommand? (t : Text) : Option (Draft × Text) := do
  let (name, afterName) ← name? (Group.skipSpaces t)
  let (arity, afterArity) ← optional? (Group.skipSpaces afterName)
  let (default?, afterDefault) ←
    if arity.isSome then optional? afterArity else some (none, afterArity)
  let (body, rest) ← Group.braces? afterDefault
  let arity := (arity.map fun t => Arity.written (Text.strip t)).getD (.counted 0)
  return (⟨name, arity, default?, body⟩, rest)

/-- The parameters of a definition, `#1` to `#9` in any order: how many there are, and
    what follows them. -/
def parameters : Text → Nat × Text
  | '#' :: c :: rest =>
    if '1' ≤ c ∧ c ≤ '9' then
      let (n, after) := parameters rest
      (n + 1, after)
    else (0, '#' :: c :: rest)
  | t => (0, t)

/-- Reads the name, the parameters and the body of a plain definition (`_parse_def`). -/
def plain? (t : Text) : Option (Draft × Text) := do
  let (name, afterName) ← Markup.controlSequence? (Group.skipSpaces t)
  let (count, afterParameters) := parameters afterName
  let (body, rest) ← Group.braces? (Group.skipSpaces afterParameters)
  return (⟨name, .counted count, none, body⟩, rest)

/-- Reads the name and the letters of an operator (`_parse_operator`). -/
def operator? (starred : Bool) (t : Text) : Option (Draft × Text) := do
  let (name, afterName) ← name? (Group.skipSpaces t)
  let (label, rest) ← Group.braces? (Group.skipSpaces afterName)
  let command : Text := if starred then "\\operatorname*" else "\\operatorname"
  return (⟨name, .counted 0, none, command ++ Text.braced label⟩, rest)

def draft? : Head → Text → Option (Draft × Text)
  | .def_ => plain?
  | .operator starred => operator? starred
  | .newcommand => newcommand?
  | .renewcommand => newcommand?
  | .providecommand => newcommand?

/-! ### Checking a definition -/

/-- No macro has more arguments (`MAX_ARITY`). -/
def maxArity : Nat := 9

/-- The name behind the backslash; empty without one. -/
def bareName : Text → Text
  | '\\' :: name => name
  | _ => []

def isName (name : Text) : Bool := !name.isEmpty && name.all Text.isAsciiLetter

/-- A number of arguments, or nothing if there are too many. -/
def atMostMax? (n : Nat) : Option Nat := if n ≤ maxArity then some n else none

/-- The number of arguments of a definition, or nothing if what is written is not a number,
    or if there are too many. A text of digits that are no decimals is beyond reading. -/
def arityOf : Arity → Noted (Option Nat)
  | .counted n => pure (atMostMax? n)
  | .written t =>
    if t.isEmpty || !t.all Text.isDigit then pure none
    else match Integer.read t with
      | .error error => Noted.fail (.integer error)
      | .ok n => pure (atMostMax? n.toNat)

/-- The macro of a draft. A fault of the draft is reported and leaves no macro. -/
def checked? (head : Head) (draft : Draft) (position : Nat) : Noted (Option Macro) := do
  let name := bareName draft.name
  if !isName name then
    Noted.report .invalidMacroName
      ("Invalid macro name " ++ Text.quoted draft.name ++ " in \\" ++ head.name) position
    return none
  match ← arityOf draft.arity with
  | none =>
    Noted.report .invalidMacroName
      ("Invalid argument count " ++ Text.quoted draft.arity.text ++ " for \\" ++ name) position
    return none
  | some arity =>
    return some ⟨name, arity, draft.body, if arity = 0 then none else draft.default?⟩

/-! ### Collecting -/

/-- How far the collection has come: where the last definition ended, the edits that take
    the definitions out, and the macros. -/
structure Progress where
  cursor : Nat
  edits : List Edit
  macros : Table Macro

/-- Enters a macro into the table: a later definition replaces an earlier one, unless it
    only provides. -/
def enter (head : Head) (m : Macro) (macros : Table Macro) : Table Macro :=
  if head = .providecommand ∧ macros.has m.name then macros else macros.put m.name m

/-- Takes the next defining command, unless it is escaped or belongs to the last
    definition. -/
def collectHit (text : Text) (s : Progress) (h : Hit Head) : Noted Progress :=
  if h.start < s.cursor ∨ Scan.isEscaped text h.start then pure s
  else match draft? h.value (text.drop h.stop) with
    | none => do
      Noted.report .invalidMacroName ("Malformed \\" ++ h.value.name) h.start
      return s
    | some (draft, after) => do
      match ← checked? h.value draft h.start with
      | none => return s
      | some m =>
        let stop := text.length - after.length
        return ⟨stop, s.edits ++ [⟨h.start, stop, []⟩], enter h.value m s.macros⟩

/-- Takes the definitions out of a text: what remains, and the macros defined
    (`collect_definitions`). -/
def collect (text : Text) : Noted (Text × Table Macro) := do
  let s ← (Scan.hits head text).foldlM (collectHit text) ⟨0, [], []⟩
  return (← Noted.edited text s.edits, s.macros)

end Definition

end TexMark
