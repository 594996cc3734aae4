/-
  TexMark/Theorem/Callout.lean
  ============================
  **Callouts.** Markdown has no theorems. An instance is written as a callout: a quotation
  whose first line names the kind and holds the title, and whose first body line begins
  with the heading and the number. Reading callouts back gives the environments again,
  without the headings.

  `Callout.render` is `render` of `TheoremStateMachine`, and `Callout.toEnvironments` is
  `callouts_to_environments`.
-/
import TexMark.Theorem.Register
import TexMark.Text.Digit

namespace TexMark.Callout

/-! ### Kinds of callouts -/

/-- The environments that are theorems without a declaration. Each has a callout of its
    own name. -/
def defaultNames : List Text :=
  ["theorem", "lemma", "proposition", "corollary", "definition", "example", "remark", "proof"]

def fallback : Text := "note"

/-- The callout that an environment is written as (`callout_for`). -/
def nameFor (environment : Text) : Text :=
  if defaultNames.contains environment then environment else fallback

/-! ### Writing -/

/-- The words that open the first body line of an instance of a declared kind. -/
def leadIn (heading : Text) (number? : Option Text) : Text :=
  match number? with
  | some number => heading ++ ' ' :: number ++ ". "
  | none => heading ++ ". "

def quotedLine (line : Text) : Text :=
  if Text.isBlankText line then ['>'] else '>' :: ' ' :: line

def headLine (name : Text) (title? : Option Text) : Text :=
  let title := title?.getD []
  let mark : Text := "> [!" ++ name ++ "]"
  if title.isEmpty then mark else mark ++ ' ' :: Text.strip title

/-- One instance as a callout, closed by an empty line (`render`). -/
def render (register : TheoremRegister) (environment content : Text)
    (number? title? : Option Text) : Text :=
  let lead := match register.kinds.get? environment with
    | some kind => leadIn kind.heading number?
    | none => []
  let body := match Text.lines (Text.strip content) with
    | [] => []
    | first :: rest => Text.stripEnd (lead ++ first) :: rest
  Text.unlines (headLine (nameFor environment) title? :: body.map quotedLine) ++ ['\n', '\n']

/-! ### Reading -/

/-- Reads the beginning of a callout head, up to its title: the name of the callout
    (`_CALLOUT_HEAD`). -/
def head? (line : Text) : Option (Text × Text) := do
  let quoted ← Markup.char? '>' line
  let unspaced := match quoted with
    | c :: rest => if Text.isLineBlank c then rest else quoted
    | [] => []
  let (name, afterName) :=
    Markup.run Text.isAsciiLetter (← Markup.char? '!' (← Markup.char? '[' unspaced))
  if name.isEmpty then none
  else
    let closed ← Markup.char? ']' afterName
    let unfolded := match closed with
      | c :: rest => if c == '+' || c == '-' then rest else closed
      | [] => []
    return (name, unfolded.dropWhile Text.isLineBlank)

def digitRun (t : Text) : Text := t.takeWhile Text.isDecimal

/-- The groups of digits with a point before each, as long as they go on. -/
def pointGroups (skip : Nat) : Text → List Text
  | [] => []
  | c :: rest =>
    match skip with
    | skip + 1 => pointGroups skip rest
    | 0 =>
      let group := digitRun rest
      if c == '.' && !group.isEmpty then ('.' :: group) :: pointGroups group.length rest
      else []

/-- The number at the head of a text, made of groups of digits with points between them,
    and closed by a point: the number, and what follows that point. As many groups are
    taken as leave a point to close the number. -/
def closedNumber? (t : Text) : Option (Text × Text) :=
  let first := digitRun t
  let groups := pointGroups 0 (t.drop first.length)
  let number := first ++ groups.flatten
  if first.isEmpty then none
  else match t.drop number.length with
    | '.' :: rest => some (number, rest)
    | _ =>
      if groups.isEmpty then none
      else
        let shorter := first ++ groups.dropLast.flatten
        some (shorter, t.drop (shorter.length + 1))

/-- Looks through the words of a heading for the number behind them: the first blank that
    a closed number follows. -/
def numberBehind? : Text → Option (Text × Text)
  | [] => none
  | c :: rest =>
    match (if c == ' ' then closedNumber? rest else none) with
    | some found => some found
    | none => if Text.isWord c || c == ' ' then numberBehind? rest else none

/-- Reads a numbered lead-in: words that begin with a capital, a blank, and a closed number
    (`_LEAD_IN`). Answers the number and what follows. -/
def leadNumber? : Text → Option (Text × Text)
  | [] => none
  | c :: rest => if Text.isAsciiUpper c then numberBehind? rest else none

/-- A body line without its numbered lead-in and the blanks behind it. -/
def dropLeadIn (line : Text) : Text :=
  match leadNumber? line with
  | some (_, rest) => rest.dropWhile Text.isLineBlank
  | none => line

def isQuoted (line : Text) : Bool := line.head? == some '>'

/-- A quoted line without its marker and one space. -/
def unquoted (line : Text) : Text :=
  match line with
  | _ :: ' ' :: rest => rest
  | _ :: rest => rest
  | [] => []

/-- The body of a callout: the quoted lines that follow its head, without their markers
    and without the lead-in. -/
def bodyOf (following : List Text) : List Text :=
  match (following.takeWhile isQuoted).map unquoted with
  | [] => []
  | first :: rest => dropLeadIn first :: rest

theorem length_bodyOf (following : List Text) :
    (bodyOf following).length = (following.takeWhile isQuoted).length := by
  unfold bodyOf
  split <;> rename_i h <;> simpa using (congrArg List.length h).symm

/-- The name and the title of a callout that stands for a theorem. -/
def theoremHead? (line : Text) : Option (Text × Text) :=
  (head? line).filter fun h => defaultNames.contains h.1

/-- The lines of a document with every theorem callout turned back into an environment;
    callouts inside callouts are turned back as well. An entry of the answer may hold
    several lines. -/
def toEnvironmentLines : List Text → List Text
  | [] => []
  | line :: rest =>
    match theoremHead? line with
    | none => line :: toEnvironmentLines rest
    | some (name, title) =>
      let inner := Text.strip (Text.unlines (toEnvironmentLines (bodyOf rest)))
      let shownTitle := Text.strip title
      let opening := Markup.beginMarker name ++
        if shownTitle.isEmpty then [] else Text.bracketed shownTitle
      opening :: ((if inner.isEmpty then [] else [inner]) ++
        Markup.endMarker name :: toEnvironmentLines (rest.dropWhile isQuoted))
termination_by ls => ls.length
decreasing_by
  · simp
  · rw [length_bodyOf]
    exact Nat.lt_succ_of_le (List.takeWhile_sublist _).length_le
  · exact Nat.lt_succ_of_le (List.dropWhile_sublist _).length_le

/-- Turns the theorem callouts of a document back into environments
    (`callouts_to_environments`). -/
def toEnvironments (text : Text) : Text := Text.unlines (toEnvironmentLines (Text.lines text))

end TexMark.Callout
