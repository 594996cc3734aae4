/-
  TexMark/Macro.lean
  ==================
  **Macros.** A macro replaces an invocation of its name, with the arguments that follow,
  by its body. Macros are expanded one after the other, those with longer names first,
  and each in one pass over the text: what a pass puts in is not read again in that pass.

  The passes are `_expand_one` and `expand_macros` with `_substitute`, and the macros that are
  always there are `BUILTIN_MACROS`.
-/
import TexMark.Diagnostic
import TexMark.Table
import TexMark.Markup.Command
import TexMark.Markup.Group

namespace TexMark

/-- A **macro** (`MacroDefinition`). If it has a default, its first argument is optional and
    written in brackets. -/
structure Macro where
  name : Text
  arity : Nat
  body : Text
  default? : Option Text
deriving DecidableEq, Repr

namespace Macro

/-! ### One invocation -/

/-- Reads up to `count` arguments in braces, and answers them with what follows. -/
def arguments : (count : Nat) → Text → List Text × Text
  | 0, t => ([], t)
  | count + 1, t =>
    match Group.braces? (Group.skipSpaces t) with
    | none => ([], t)
    | some (arg, rest) =>
      let (args, after) := arguments count rest
      (arg :: args, after)

/-- Reads the arguments of an invocation, the optional one first, and answers them with
    what follows. -/
def argumentsOf (m : Macro) (t : Text) : List Text × Text :=
  match m.default? with
  | none => arguments m.arity t
  | some value =>
    let (first, rest) := (Group.brackets? (Group.skipSpaces t)).getD (value, t)
    let (args, after) := arguments (m.arity - 1) rest
    (first :: args, after)

/-- The body with its parameters replaced: `#1` to `#9` by the arguments, and by nothing where an
    argument is missing; two hash signs by one (`_substitute`). -/
def substitute (args : List Text) : Text → Text
  | [] => []
  | '#' :: '#' :: rest => '#' :: substitute args rest
  | '#' :: c :: rest =>
    if '1' ≤ c ∧ c ≤ '9' then (args[c.toNat - 49]?).getD [] ++ substitute args rest
    else '#' :: substitute args (c :: rest)
  | c :: rest => c :: substitute args rest

/-! ### Expansion -/

/-- Reads the complete name of a macro at a place. -/
def invocation (m : Macro) : Recognizer Unit := fun _ rest =>
  (Markup.word? m.name rest).map fun after => ((), after)

/-- How far the expansion of one macro has come: where the last invocation ended, and the
    edits so far. -/
structure Progress where
  cursor : Nat
  edits : List Edit

/-- Takes the next invocation, unless it is escaped or belongs to the arguments of the
    last. -/
def expandHit (m : Macro) (text : Text) (s : Progress) (h : Hit Unit) : Noted Progress :=
  if h.start < s.cursor ∨ Scan.isEscaped text h.start then pure s
  else do
    let (args, after) := m.argumentsOf (text.drop h.stop)
    let stop := text.length - after.length
    if args.length ≠ m.arity then
      Noted.report .arityMismatch
        ('\\' :: m.name ++ " expects " ++ Text.ofNat m.arity ++ " argument(s), got " ++
          Text.ofNat args.length) h.start
    return ⟨stop, s.edits ++ [⟨h.start, stop, substitute args m.body⟩]⟩

/-- The text with the invocations of one macro replaced, in one pass (`_expand_one`). -/
def expand (m : Macro) (text : Text) : Noted Text := do
  let s ← (Scan.hits m.invocation text).foldlM (expandHit m text) ⟨0, []⟩
  Noted.edited text s.edits

/-- Longer names come first, names of one length in the order of their code points. -/
def expandsBefore (a b : Macro) : Bool :=
  b.name.length < a.name.length || (a.name.length == b.name.length && Text.le a.name b.name)

/-- The text with some macros expanded, one after the other (`expand_macros`). -/
def expandAll (ms : List Macro) (text : Text) : Noted Text :=
  (ms.mergeSort expandsBefore).foldlM (fun t m => m.expand t) text

/-! ### Built-in macros -/

def blackboard (letter : Char) : Text := "\\mathbb" ++ Text.braced [letter]

/-- The macros that are there without a definition: the sets of numbers under names of one letter
    and of two, absolute value and norm (`BUILTIN_MACROS`). -/
def builtin : List Macro :=
  (['R', 'N', 'Z', 'Q', 'C'].map fun c => ⟨[c], 0, blackboard c, none⟩) ++
  (['R', 'N', 'Z', 'Q', 'C'].map fun c => ⟨[c, c], 0, blackboard c, none⟩) ++
  [⟨"abs", 1, "\\left|#1\\right|", none⟩,
   ⟨"norm", 1, "\\left\\|#1\\right\\|", none⟩]

end Macro

end TexMark
