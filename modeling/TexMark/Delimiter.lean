/-
  TexMark/Delimiter.lean
  ======================
  **Formula delimiters.** Markdown writes a display formula between `$$` and `$$` and an
  inline formula between `$` and `$`; TeX writes `\[ \]` and `\( \)`, or one of two
  environments. `Delimiter.normalize` turns the delimiters of one dialect into those of the other.

  A pair is replaced only when its closer is the next delimiter after its opener. Every
  delimiter that belongs to no such pair stays as it is written and is reported.

  `Delimiter.forwardRules` and `Delimiter.reverseRules` are `FORWARD_RULES` and
  `REVERSE_RULES`, `Delimiter.normalize` is `normalize_delimiters`.
-/
import TexMark.Diagnostic
import TexMark.Scan
import TexMark.Markup.BlockQuote
import TexMark.Markup.Command

namespace TexMark

/-! ### Rules -/

/-- Formulas stand in the line of the text, or on lines of their own. -/
inductive FormulaKind where
  | display
  | inline
deriving DecidableEq, Repr

/-- A pair of delimiters, and the pair that is written in its place (`DelimiterRule`). -/
structure DelimiterRule where
  kind : FormulaKind
  opener : Text
  closer : Text
  targetOpener : Text
  targetCloser : Text
deriving DecidableEq, Repr

namespace Delimiter

def forwardRules : List DelimiterRule :=
  [⟨.display, "\\[", "\\]", "$$", "$$"⟩,
   ⟨.display, Markup.beginMarker "displaymath", Markup.endMarker "displaymath", "$$", "$$"⟩,
   ⟨.inline, "\\(", "\\)", "$", "$"⟩,
   ⟨.inline, Markup.beginMarker "math", Markup.endMarker "math", "$", "$"⟩]

def reverseRules : List DelimiterRule :=
  [⟨.display, "$$", "$$", "\\[", "\\]"⟩,
   ⟨.inline, "$", "$", "\\(", "\\)"⟩]

/-- Line breaks and escaped dollars are read as a whole and are never delimiters
    (`_OPAQUE_TOKENS`). -/
def inertTokens : List Text := ["\\\\", "\\$"]

/-- The delimiters of some rules, and the inert tokens, the longest first (`_token_pattern`). -/
def tokens (rules : List DelimiterRule) : List Text :=
  (inertTokens ++ rules.flatMap fun r => [r.opener, r.closer]).mergeSort
    fun a b => b.length ≤ a.length

/-- Reads the first of some tokens that stands at a place. -/
def token (tokens : List Text) : Recognizer Text := fun _ rest =>
  tokens.findSome? fun t => (Text.dropPrefix? t rest).map fun after => (t, after)

def delimiters (rules : List DelimiterRule) (text : Text) : List (Hit Text) :=
  (Scan.hits (token (tokens rules)) text).filter fun h => !inertTokens.contains h.value

/-! ### Formulas -/

/-- A display formula: its lines without blanks around them and without empty lines, between its
    markers (`display_block`). `compact` puts a formula of one line on the line of the markers.
    Each line but the first begins with `front`, so that a formula inside a quotation stays
    there. -/
def displayBlock (content front : Text) (compact : Bool) (opener closer : Text) : Text :=
  let ls := ((BlockQuote.stripLines front (Text.lines content)).map Text.strip).filter
    fun line => !line.isEmpty
  if compact && ls.length ≤ 1 then opener ++ ls.flatten ++ closer
  else Text.unlines (opener :: (ls.map (front ++ ·) ++ [front ++ closer]))

/-- A display formula in Markdown, outside quotations. -/
def display (content : Text) : Text := displayBlock content [] false "$$" "$$"

/-- The formula of a pair whose opener begins at `start` (`_render`). -/
def render (rule : DelimiterRule) (text : Text) (start : Nat) (content : Text) : Text :=
  match rule.kind with
  | .inline => rule.targetOpener ++ Text.strip content ++ rule.targetCloser
  | .display =>
    displayBlock content (BlockQuote.prefixAt text start)
      (!(Text.strip content).contains '\n') rule.targetOpener rule.targetCloser

/-! ### Pairs -/

/-- An opener whose closer has not been met. -/
structure Pending where
  rule : DelimiterRule
  start : Nat
  stop : Nat
deriving DecidableEq, Repr

/-- How far the pairing has come: the opener that waits for its closer, and the edits of
    the pairs found. -/
structure Pairing where
  pending : Option Pending
  edits : List Edit
deriving DecidableEq, Repr

/-- The rule that a delimiter opens. Of several rules with one opener the last counts. -/
def ruleOf? (rules : List DelimiterRule) (opener : Text) : Option DelimiterRule :=
  rules.reverse.find? fun r => r.opener == opener

/-- Takes a delimiter that closes no pair: it opens one, or stands alone. -/
def take (rules : List DelimiterRule) (edits : List Edit) (h : Hit Text) : Noted Pairing :=
  match ruleOf? rules h.value with
  | some rule => pure ⟨some ⟨rule, h.start, h.stop⟩, edits⟩
  | none => do
    Noted.report .delimiterMismatch ("Unmatched closing delimiter " ++ h.value) h.start
    return ⟨none, edits⟩

def pairUp (rules : List DelimiterRule) (text : Text) (s : Pairing) (h : Hit Text) :
    Noted Pairing :=
  match s.pending with
  | none => take rules s.edits h
  | some p =>
    if h.value = p.rule.closer then
      let formula := render p.rule text p.start (Text.slice text p.stop h.start)
      pure ⟨none, s.edits ++ [⟨p.start, h.stop, formula⟩]⟩
    else do
      Noted.report .delimiterMismatch
        (p.rule.opener ++ " interrupted by " ++ h.value ++ " before " ++ p.rule.closer) p.start
      take rules s.edits h

/-- Reports the opener that is still waiting at the end of the text. -/
def finish (s : Pairing) : Noted (List Edit) :=
  match s.pending with
  | none => pure s.edits
  | some p => do
    Noted.report .delimiterMismatch
      ("Unterminated " ++ p.rule.opener ++ " (missing " ++ p.rule.closer ++ ")") p.start
    return s.edits

def pairs (rules : List DelimiterRule) (text : Text) : Noted (List Edit) := do
  finish (← (delimiters rules text).foldlM (pairUp rules text) ⟨none, []⟩)

/-- The text with the delimiters of its pairs exchanged (`normalize_delimiters`). -/
def normalize (rules : List DelimiterRule) (text : Text) : Noted Text := do
  Noted.edited text (← pairs rules text)

end Delimiter

end TexMark
