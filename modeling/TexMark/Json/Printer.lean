/-
  TexMark/Json/Printer.lean
  =========================
  **Writing JSON.** The written form has ASCII characters only: all others are written by
  their UTF-16 units. A comma and a colon have a space behind them.
-/
import TexMark.Json.Value

namespace TexMark.Json

def unitEscape (n : Nat) : Text := '\\' :: 'u' :: Text.hex 4 n

def escapedChar (c : Char) : Text :=
  let n := c.toNat
  if c == '"' then ['\\', '"']
  else if c == '\\' then ['\\', '\\']
  else if c == '\n' then ['\\', 'n']
  else if c == '\r' then ['\\', 'r']
  else if c == '\t' then ['\\', 't']
  else if n == 8 then ['\\', 'b']
  else if n == 12 then ['\\', 'f']
  else if 32 ≤ n && n < 127 then [c]
  else if n < 0x10000 then unitEscape n
  else
    let m := n - 0x10000
    unitEscape (0xD800 + m / 0x400) ++ unitEscape (0xDC00 + m % 0x400)

def printString (t : Text) : Text := '"' :: (t.flatMap escapedChar ++ ['"'])

mutual

def print : Json → Text
  | null => "null"
  | bool b => if b then "true" else "false"
  | int i => Text.ofInt i
  | float x => x.text
  | str t => printString t
  | arr items => '[' :: printItems items ++ "]"
  | obj members => '{' :: printMembers members ++ ['}']

def printItems : List Json → Text
  | [] => []
  | [item] => print item
  | item :: items => print item ++ ", " ++ printItems items

/-- The members of an object, separated by commas. -/
def printMembers : List (Text × Json) → Text
  | [] => []
  | [(name, value)] => printString name ++ ": " ++ print value
  | (name, value) :: members =>
    printString name ++ ": " ++ print value ++ ", " ++ printMembers members

end

end TexMark.Json
