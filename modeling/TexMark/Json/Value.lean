/-
  TexMark/Json/Value.lean
  =======================
  **JSON values.** Whole numbers and floating-point numbers are different things here, and
  the members of an object stand in the order in which their names first came.
-/
import TexMark.Number.Binary64
import TexMark.Table
import TexMark.Text.Quoted

namespace TexMark

/-- A JSON value. -/
inductive Json where
  | null
  | bool (b : Bool)
  | int (i : Int)
  | float (x : Binary64)
  | str (t : Text)
  | arr (items : List Json)
  | obj (members : List (Text × Json))

namespace Json

/-! ### Parts -/

def member? (name : Text) : Json → Option Json
  | obj members => Table.get? members name
  | _ => none

def text? : Json → Option Text
  | str t => some t
  | _ => none

def int? : Json → Option Int
  | int i => some i
  | _ => none

def bool? : Json → Option Bool
  | bool b => some b
  | _ => none

def items? : Json → Option (List Json)
  | arr items => some items
  | _ => none

def members? : Json → Option (Table Json)
  | obj members => some members
  | _ => none

/-! ### Values in messages -/

mutual

/-- The form of a value inside another one: texts are quoted. -/
def shown : Json → Text
  | null => "None"
  | bool b => if b then "True" else "False"
  | int i => Text.ofInt i
  | float x => x.text
  | str t => Text.quoted t
  | arr items => '[' :: shownItems items ++ "]"
  | obj members => '{' :: shownMembers members ++ ['}']

def shownItems : List Json → Text
  | [] => []
  | [item] => shown item
  | item :: items => shown item ++ ", " ++ shownItems items

/-- The members of an object, separated by commas. -/
def shownMembers : List (Text × Json) → Text
  | [] => []
  | [(name, value)] => Text.quoted name ++ ": " ++ shown value
  | (name, value) :: members =>
    Text.quoted name ++ ": " ++ shown value ++ ", " ++ shownMembers members

end

/-- The form of a value that is to be a text: a text is taken as it is. -/
def asText : Json → Text
  | str t => t
  | v => shown v

end Json

end TexMark
