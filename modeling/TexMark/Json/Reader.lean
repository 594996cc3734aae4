/-
  TexMark/Json/Reader.lean
  ========================
  **Reading JSON.** The text is read token by token, and a machine that keeps the open arrays and
  objects puts the tokens together. Of several members with one name the last counts. Control
  characters may not stand in strings, and nothing may follow the value. Arrays and objects may
  lie in each other to a certain depth only, and whichever fault comes first in the text decides.
-/
import TexMark.Json.Value
import TexMark.Text.Integer

namespace TexMark.Json

/-! ### Tokens -/

/-- A token. -/
inductive Token where
  | openArray
  | closeArray
  | openObject
  | closeObject
  | comma
  | colon
  /-- A string. -/
  | string (t : Text)
  /-- A value that is written without brackets or quotes. -/
  | scalar (v : Json)

def hexValue? (c : Char) : Option Nat :=
  if '0' ≤ c ∧ c ≤ '9' then some (c.toNat - 48)
  else if 'a' ≤ c ∧ c ≤ 'f' then some (c.toNat - 87)
  else if 'A' ≤ c ∧ c ≤ 'F' then some (c.toNat - 55)
  else none

/-- A UTF-16 unit of four hexadecimal digits, and what follows it. -/
def unit? : Text → Option (Nat × Text)
  | a :: b :: c :: d :: rest => do
    let n := 4096 * (← hexValue? a) + 256 * (← hexValue? b) + 16 * (← hexValue? c) +
      (← hexValue? d)
    return (n, rest)
  | _ => none

/-- The character that stands for half of a surrogate pair. -/
def replacementChar : Char := Char.ofNat 0xFFFD

/-- The character of a UTF-16 unit, or of two that make a pair, and how many characters of
    the text behind `\u` they take. -/
def unitChar? (t : Text) : Option (Char × Nat) := do
  let (high, rest) ← unit? t
  if 0xD800 ≤ high ∧ high < 0xE000 then
    match rest with
    | '\\' :: 'u' :: more =>
      match unit? more with
      | some (low, _) =>
        if high < 0xDC00 ∧ 0xDC00 ≤ low ∧ low < 0xE000 then
          return (Char.ofNat (0x10000 + (high - 0xD800) * 0x400 + (low - 0xDC00)), 10)
        else return (replacementChar, 4)
      | none => return (replacementChar, 4)
    | _ => return (replacementChar, 4)
  else return (Char.ofNat high, 4)

/-- The character that a letter behind a backslash stands for. -/
def simpleEscape? (c : Char) : Option Char :=
  if c == '"' || c == '\\' || c == '/' then some c
  else if c == 'b' then some (Char.ofNat 8)
  else if c == 'f' then some (Char.ofNat 12)
  else if c == 'n' then some '\n'
  else if c == 'r' then some '\r'
  else if c == 't' then some '\t'
  else none

/-- Reads a string from behind its opening quote: its characters, and how many characters
    of the text it takes. The first `skip` characters have been read. -/
def stringFrom (skip : Nat) : Text → Option (Text × Nat)
  | [] => none
  | c :: rest =>
    match skip with
    | skip + 1 => (stringFrom skip rest).map fun r => (r.1, r.2 + 1)
    | 0 =>
      if c == '"' then some ([], 1)
      else if c.toNat < 32 then none
      else if c == '\\' then
        match rest with
        | [] => none
        | e :: more =>
          if e == 'u' then do
            let (char, size) ← unitChar? more
            let (t, n) ← stringFrom (size + 1) rest
            return (char :: t, n + 1)
          else do
            let char ← simpleEscape? e
            let (t, n) ← stringFrom 1 rest
            return (char :: t, n + 1)
      else (stringFrom 0 rest).map fun r => (c :: r.1, r.2 + 1)

/-- The digits at the head of a text, and what follows them. -/
def digits (t : Text) : Text × Text := (t.takeWhile Char.isDigit, t.dropWhile Char.isDigit)

def digitsValue (t : Text) : Nat := Integer.ofDigits (t.map fun c => c.toNat - 48)

/-- The whole part of a number: a zero, or digits that do not begin with one. -/
def wholePart? (t : Text) : Option (Text × Text) :=
  match t with
  | '0' :: rest => some (['0'], rest)
  | _ =>
    let (whole, rest) := digits t
    if whole.isEmpty then none else some (whole, rest)

def fractionPart (t : Text) : Option Text × Text :=
  match t with
  | '.' :: rest =>
    let (fraction, after) := digits rest
    if fraction.isEmpty then (none, t) else (some fraction, after)
  | _ => (none, t)

def exponentPart (t : Text) : Option Int × Text :=
  match t with
  | c :: rest =>
    if c == 'e' || c == 'E' then
      let (negative, unsigned) := Integer.sign rest
      let (ds, after) := digits unsigned
      if ds.isEmpty then (none, t)
      else (some (if negative then -(digitsValue ds : Int) else digitsValue ds), after)
    else (none, t)
  | [] => (none, t)

/-- Reads a number. With neither a fraction nor an exponent it is a whole number, which may
    not be longer than integers may be. -/
def number? (t : Text) : Option (Json × Text) := do
  let (negative, unsigned) := match t with
    | '-' :: rest => (true, rest)
    | _ => (false, t)
  let (whole, afterWhole) ← wholePart? unsigned
  let (fraction?, afterFraction) := fractionPart afterWhole
  let (exponent?, rest) := exponentPart afterFraction
  match fraction?, exponent? with
  | none, none =>
    if Integer.maxDigits < whole.length then none
    else
      let n : Int := digitsValue whole
      return (int (if negative then -n else n), rest)
  | _, _ =>
    let fraction := fraction?.getD []
    let power := exponent?.getD 0 - fraction.length
    return (float (Binary64.ofDecimal negative (digitsValue (whole ++ fraction)) power), rest)

def words : List (Text × Json) :=
  [("null", null), ("true", bool true), ("false", bool false), ("NaN", float .nan),
   ("Infinity", float (.infinite false)), ("-Infinity", float (.infinite true))]

/-- Reads a token that is neither a blank nor a string: the token and its length. -/
def symbol? (t : Text) : Option (Token × Nat) :=
  match t with
  | [] => none
  | c :: _ =>
    if c == '[' then some (.openArray, 1)
    else if c == ']' then some (.closeArray, 1)
    else if c == '{' then some (.openObject, 1)
    else if c == '}' then some (.closeObject, 1)
    else if c == ',' then some (.comma, 1)
    else if c == ':' then some (.colon, 1)
    else match words.find? fun w => Text.startsWith t w.1 with
      | some w => some (.scalar w.2, w.1.length)
      | none => (number? t).map fun r => (.scalar r.1, t.length - r.2.length)

def isSpace (c : Char) : Bool := c == ' ' || c == '\t' || c == '\n' || c == '\r'

/-- The token at the head of a text that begins with this character, which is no blank, and how
    many characters it takes. -/
def token? (c : Char) (rest : Text) : Option (Token × Nat) :=
  if c == '"' then (stringFrom 0 rest).map fun r => (.string r.1, r.2 + 1)
  else symbol? (c :: rest)

/-! ### Putting values together -/

/-- An array or an object that is not closed yet. An object knows the member whose value is
    to come. -/
inductive Open where
  | array (done : List Json)
  | object (done : Table Json) (name : Text)

/-- What may come next. -/
inductive Expected where
  | value
  | itemOrEnd
  | nameOrEnd
  | name
  | colon
  | separator
deriving DecidableEq

/-- The machine: the open arrays and objects, the innermost first, what may come next, and
    the value once it is complete. -/
structure Machine where
  stack : List Open
  expected : Expected
  result? : Option Json

def place (v : Json) : List Open → Machine
  | [] => ⟨[], .separator, some v⟩
  | .array done :: outer => ⟨.array (done ++ [v]) :: outer, .separator, none⟩
  | .object done name :: outer => ⟨.object (Table.put name v done) name :: outer, .separator, none⟩

def step (m : Machine) (token : Token) : Option Machine :=
  let startsValue := m.expected = .value ∨ m.expected = .itemOrEnd
  match token, m.stack with
  | .scalar v, stack => if startsValue then some (place v stack) else none
  | .string t, stack =>
    if startsValue then some (place (.str t) stack)
    else match stack with
      | .object done _ :: outer =>
        if m.expected = .nameOrEnd ∨ m.expected = .name then
          some ⟨.object done t :: outer, .colon, none⟩
        else none
      | _ => none
  | .openArray, stack => if startsValue then some ⟨.array [] :: stack, .itemOrEnd, none⟩ else none
  | .openObject, stack =>
    if startsValue then some ⟨.object [] [] :: stack, .nameOrEnd, none⟩ else none
  | .closeArray, .array done :: outer =>
    if m.expected = .itemOrEnd ∨ m.expected = .separator then some (place (.arr done) outer)
    else none
  | .closeObject, .object done _ :: outer =>
    if m.expected = .nameOrEnd ∨ m.expected = .separator then some (place (.obj done) outer)
    else none
  | .comma, .array done :: outer =>
    if m.expected = .separator then some ⟨.array done :: outer, .value, none⟩ else none
  | .comma, .object done name :: outer =>
    if m.expected = .separator then some ⟨.object done name :: outer, .name, none⟩ else none
  | .colon, stack => if m.expected = .colon then some ⟨stack, .value, none⟩ else none
  | _, _ => none

/-! ### Reading texts -/

/-- Why a text is read as no value. -/
inductive ReadError where
  | malformed
  /-- This bracket opens an array or an object that lies too deep. -/
  | tooDeep (bracket : Char)
deriving DecidableEq, Repr

/-- Runs the machine over a text, of which the first `skip` characters have been read. At most
    `nesting` arrays and objects may be open. -/
def readFrom (nesting skip : Nat) (m : Machine) : Text → Except ReadError Machine
  | [] => .ok m
  | c :: rest =>
    match skip with
    | skip + 1 => readFrom nesting skip m rest
    | 0 =>
      if isSpace c then readFrom nesting 0 m rest
      else match token? c rest with
        | none => .error .malformed
        | some (token, size) => match step m token with
          | none => .error .malformed
          | some next =>
            if nesting < next.stack.length then .error (.tooDeep c)
            else readFrom nesting (size - 1) next rest

def read (nesting : Nat) (t : Text) : Except ReadError Json := do
  let m ← readFrom nesting 0 ⟨[], .value, none⟩ t
  match m.result? with
  | none => .error .malformed
  | some v => .ok v

end TexMark.Json
