/-
  TexMark/Text/CharTable.lean
  ===========================
  **Sets of characters given by ranges of code points.**

  The character classes of a document (letters, numbers, characters that print)
  are properties of the Unicode standard. Each is a table of closed ranges, and
  membership is a search of that table.
-/
namespace TexMark

/-- A set of characters, given by closed ranges of code points. -/
structure CharTable where
  ranges : List (Nat × Nat)

/-- A character belongs to the table when one of the ranges holds its code point. -/
def CharTable.contains (table : CharTable) (c : Char) : Bool :=
  table.ranges.any fun r => r.1 ≤ c.toNat && c.toNat ≤ r.2

end TexMark
