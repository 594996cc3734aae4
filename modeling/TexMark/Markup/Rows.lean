/-
  TexMark/Markup/Rows.lean
  ========================
  **Rows of aligned formulas.** A double backslash ends a row, unless it stands inside
  braces or inside a nested environment, which has rows of its own. `Rows.split` finds the
  rows and `Rows.join` writes them one on a line.

  A separator may carry a spacing argument such as `[2pt]`. Splitting leaves it at the head
  of the next row; joining hands it back to its separator.

  `Rows.split` is `split_rows`, `Rows.join` is `join_rows`.
-/
import TexMark.Text.Blank
import TexMark.Text.Digit

namespace TexMark.Rows

/-! ### Pieces of a formula -/

/-- What a piece of a formula does to the division into rows. -/
inductive Mark where
  /-- A double backslash. -/
  | separator
  /-- The beginning of a nested environment. -/
  | enter
  /-- The end of a nested environment. -/
  | leave
  | openBrace
  | closeBrace
  | plain
deriving DecidableEq, Repr

/-- A piece of a formula: characters that are read together. -/
structure Piece where
  mark : Mark
  lexeme : Text
deriving DecidableEq, Repr

def letterFollows (t : Text) : Bool :=
  match t with
  | [] => false
  | c :: _ => Text.isLetter c

/-- The pieces of a formula. Their lexemes make up the formula. Every command that begins
    with `\begin` opens an environment; `\end` closes one when its name ends there. -/
def pieces : Text → List Piece
  | [] => []
  | '\\' :: '\\' :: rest => ⟨.separator, ['\\', '\\']⟩ :: pieces rest
  | '\\' :: 'b' :: 'e' :: 'g' :: 'i' :: 'n' :: rest => ⟨.enter, "\\begin"⟩ :: pieces rest
  | '\\' :: 'e' :: 'n' :: 'd' :: rest =>
    ⟨if letterFollows rest then .plain else .leave, "\\end"⟩ :: pieces rest
  | '\\' :: c :: rest => ⟨.plain, ['\\', c]⟩ :: pieces rest
  | '{' :: rest => ⟨.openBrace, ['{']⟩ :: pieces rest
  | '}' :: rest => ⟨.closeBrace, ['}']⟩ :: pieces rest
  | c :: rest => ⟨.plain, [c]⟩ :: pieces rest

theorem flatMap_lexeme_pieces (t : Text) : (pieces t).flatMap (·.lexeme) = t := by
  fun_induction pieces t <;> simp_all

/-! ### Splitting -/

/-- How many braces and environments are open. -/
structure Depth where
  braces : Nat
  environments : Nat
deriving DecidableEq, Repr

/-- The depth behind a piece. Ends of what was never opened are passed over. -/
def Depth.after (d : Depth) : Mark → Depth
  | .enter => { d with environments := d.environments + 1 }
  | .leave => { d with environments := d.environments - 1 }
  | .openBrace => { d with braces := d.braces + 1 }
  | .closeBrace => { d with braces := d.braces - 1 }
  | .separator => d
  | .plain => d

def Depth.isTop (d : Depth) : Bool := d.braces == 0 && d.environments == 0

/-- The rows of the pieces to come, the first of them being under way. -/
def splitPieces (depth : Depth) : List Piece → List Text
  | [] => [[]]
  | p :: ps =>
    if p.mark = .separator ∧ depth.isTop then [] :: splitPieces depth ps
    else match splitPieces (depth.after p.mark) ps with
      | [] => [p.lexeme]
      | row :: rows => (p.lexeme ++ row) :: rows

/-- Drops the empty rows at the end, but not the last row there is. -/
def dropEmptyTail : List Text → List Text
  | [] => []
  | row :: rows =>
    match dropEmptyTail rows with
    | [] => [row]
    | [[]] => [row]
    | kept => row :: kept

/-- The rows of a formula, without the blanks around them (`split_rows`). -/
def split (content : Text) : List Text :=
  dropEmptyTail ((splitPieces ⟨0, 0⟩ (pieces content)).map Text.strip)

/-! ### Joining -/

/-- Digits and points, of which the number of a spacing argument is made. -/
def isLengthDigit (c : Char) : Bool := Text.isDecimal c || c == '.'

/-- The spacing argument at the head of a row, and the row behind it: a number with an
    optional minus and a unit of two letters, in brackets, with blanks between them. -/
def spacing? (row : Text) : Option (Text × Text) :=
  match row with
  | '[' :: rest =>
    let signed := Text.skipBlanks rest
    let number := if signed.head? = some '-' then signed.drop 1 else signed
    let unit := Text.skipBlanks (number.dropWhile isLengthDigit)
    if (number.takeWhile isLengthDigit).isEmpty then none
    else match unit with
      | a :: b :: more =>
        if Text.isAsciiLower a && Text.isAsciiLower b then
          match Text.skipBlanks more with
          | ']' :: after => some (row.take (row.length - after.length), after)
          | _ => none
        else none
      | _ => none
  | _ => none

/-- A row behind a separator: the separator with its spacing argument, and the row on the
    next line. -/
def continued (row : Text) : Text :=
  match spacing? row with
  | some (spacing, rest) => " \\\\" ++ spacing ++ '\n' :: Text.strip rest
  | none => " \\\\" ++ '\n' :: row

/-- The rows, one on a line, with separators between them (`join_rows`). -/
def join : List Text → Text
  | [] => []
  | row :: rows => row ++ rows.flatMap continued

/-- The formula with each of its rows on a line of its own. -/
def reflow (content : Text) : Text := join (split content)

end TexMark.Rows
