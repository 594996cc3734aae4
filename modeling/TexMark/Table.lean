/-
  TexMark/Table.lean
  ==================
  **Tables with named entries.** The entries stand in the order in which their names
  first came; putting a value under a known name leaves the name in its place.
-/
import TexMark.Text.Basic

namespace TexMark

/-- A table from names to values, in the order of the first mention of each name. -/
abbrev Table (α : Type) := List (Text × α)

namespace Table

variable {α β : Type}

def get? (table : Table α) (name : Text) : Option α :=
  (table.find? fun e => e.1 == name).map (·.2)

def has (table : Table α) (name : Text) : Bool := (table.get? name).isSome

/-- Puts a value under a name, in the place of the value that was there. -/
def put (name : Text) (value : α) : Table α → Table α
  | [] => [(name, value)]
  | e :: table => if e.1 = name then (name, value) :: table else e :: put name value table

/-- What is put under a name is found under it, and nothing else changes. -/
theorem get?_put (name other : Text) (value : α) (table : Table α) :
    get? (put name value table) other =
      if other = name then some value else get? table other := by
  induction table with
  | nil =>
    by_cases h : name = other
    · simp [put, get?, h]
    · simp [put, get?, h, Ne.symm h]
  | cons e table ih =>
    by_cases he : e.1 = name
    · by_cases h : name = other
      · simp [put, get?, he, h]
      · simp [put, get?, he, h, Ne.symm h]
    · by_cases h : e.1 = other
      · simp [put, get?, h, h ▸ he]
      · unfold get? at ih
        simp [put, get?, he, h, ih]

/-- Puts the entries of `newer` into the table, one after the other. -/
def merge (table newer : Table α) : Table α :=
  newer.foldl (fun t e => put e.1 e.2 t) table

def erase (table : Table α) (name : Text) : Table α := table.filter fun e => e.1 != name

def names (table : Table α) : List Text := table.map (·.1)

/-- The values of the table, in the order of their names. -/
def values (table : Table α) : List α := table.map (·.2)

/-- The entries in the order of the code points of their names. -/
def sorted (table : Table α) : Table α := table.mergeSort fun a b => Text.le a.1 b.1

end Table

end TexMark
