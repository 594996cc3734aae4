/-
  TexMark/Path.lean
  =================
  **Paths of files.** A path is a sequence of names, from the root or from the working
  directory. Empty names and single points mean nothing and are left out; double points
  stay.
-/
import TexMark.Text.Quoted

namespace TexMark

/-- A **path**. `slashes` stand before its names: none for a path from the working directory,
    one for a path from the root, two where the writer put exactly two. -/
structure Path where
  slashes : Nat
  names : List Text
deriving DecidableEq, Repr

namespace Path

/-- The slashes that count at the head of a written path. -/
def slashesOf (t : Text) : Nat :=
  match (t.takeWhile (· == '/')).length with
  | 0 => 0
  | 2 => 2
  | _ => 1

def ofText (t : Text) : Path :=
  ⟨slashesOf t, (Text.splitOn '/' t).filter fun name => !name.isEmpty && name != ['.']⟩

def text (p : Path) : Text :=
  if p.slashes = 0 ∧ p.names.isEmpty then ['.']
  else List.replicate p.slashes '/' ++ Text.join ['/'] p.names

/-- A name up to its last point, and from there on. The point has to stand inside the name:
    not at its head, and not at its end. -/
def splitName (name : Text) : Text × Text :=
  let after := (name.reverse.takeWhile (· != '.')).length
  let stem := name.length - after - 1
  if after = 0 ∨ name.length ≤ after + 1 then (name, [])
  else (name.take stem, name.drop stem)

/-- A path without a name has no neighbours to be named. -/
structure NoName where
  path : Path
deriving DecidableEq, Repr

def NoName.message (e : NoName) : Text :=
  "PosixPath(" ++ Text.quoted e.path.text ++ ") has an empty name"

def mapName (p : Path) (f : Text → Text) : Except NoName Path :=
  match p.names.getLast? with
  | none => .error ⟨p⟩
  | some name => .ok { p with names := p.names.dropLast ++ [f name] }

def withSuffix (p : Path) (suffix : Text) : Except NoName Path :=
  p.mapName fun name => (splitName name).1 ++ suffix

/-- The neighbour of a path with the given suffix; it is never the path itself. -/
def sibling (p : Path) (suffix : Text) : Except NoName Path := do
  let target ← p.withSuffix suffix
  if target = p then p.mapName fun name => (splitName name).1 ++ ".converted" ++ suffix
  else return target

end Path

end TexMark
