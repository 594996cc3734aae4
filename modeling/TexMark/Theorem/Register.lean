/-
  TexMark/Theorem/Register.lean
  =============================
  **Theorems and their numbers.** A document declares kinds of theorems with
  `\newtheorem`. Each kind counts its instances; a kind may count together with another
  one, or begin anew with each section. The register holds the declarations, their
  counters, and the number of the section.

  The register is a `TheoremStateMachine`.
-/
import TexMark.Table
import TexMark.Text.Blank
import TexMark.Markup.Command

namespace TexMark

/-! ### Declarations as they are written -/

/-- A `\newtheorem` command: the name of the environment and the words that head its
    instances. Either it names a kind whose counter it shares, before the heading, or a
    kind within which it counts, behind it. -/
structure NewTheorem where
  starred : Bool
  name : Text
  sharedWith? : Option Text
  heading : Text
  within? : Option Text
deriving DecidableEq, Repr

namespace NewTheorem

def nonempty? (group : Option (Text × Text)) : Option (Text × Text) :=
  group.filter fun g => !g.1.isEmpty

/-- Reads a `\newtheorem` command: what it declares, and what follows it. -/
def read? (t : Text) : Option (NewTheorem × Text) := do
  let (starred, afterStar) := Markup.star (← Markup.command? "newtheorem" t)
  let (name, afterName) ← nonempty? (Markup.flatBraces? (Text.skipBlanks afterStar))
  let (sharedWith?, afterShared) :=
    match nonempty? (Markup.flatBrackets? (Text.skipBlanks afterName)) with
    | some (inner, rest) => (some inner, rest)
    | none => (none, afterName)
  let (heading, afterHeading) ← nonempty? (Markup.flatBraces? (Text.skipBlanks afterShared))
  match nonempty? (Markup.flatBrackets? (Text.skipBlanks afterHeading)) with
  | some (inner, rest) => return (⟨starred, name, sharedWith?, heading, some inner⟩, rest)
  | none => return (⟨starred, name, sharedWith?, heading, none⟩, afterHeading)

def erased : Recognizer Text := fun _ rest => (read? rest).map fun r => ([], r.2)

end NewTheorem

/-! ### The register -/

/-- A kind of theorem and its counter (`TheoremDeclaration`). The parent is the kind that it
    counts with, if the counter is shared; otherwise the parent `section` restarts the counter. -/
structure TheoremKind where
  name : Text
  heading : Text
  counter : Nat
  parent? : Option Text
  shared : Bool
  numbered : Bool
deriving DecidableEq, Repr

/-- The parent of kinds that count within a section. -/
def sectionParent : Text := "section"

def TheoremKind.bySection (k : TheoremKind) : Bool := k.parent? == some sectionParent

/-- The **register** of a document: the kinds declared so far and the section
    (`TheoremStateMachine`). -/
structure TheoremRegister where
  kinds : Table TheoremKind
  sectionNumber : Int
deriving DecidableEq, Repr

namespace TheoremRegister

/-- Nothing is declared, and no section has begun. -/
def empty : TheoremRegister := ⟨[], 0⟩

/-- Enters a kind (`declare`). Its counter begins anew, also when the name was known. -/
def declare (r : TheoremRegister) (k : TheoremKind) : TheoremRegister :=
  { r with kinds := r.kinds.put k.name k }

/-- The kind that a command declares. Only a kind with a counter of its own can go without
    numbers. -/
def kindOf (c : NewTheorem) : TheoremKind :=
  match c.sharedWith? with
  | some other =>
    ⟨Text.strip c.name, Text.strip c.heading, 0, some (Text.strip other), true, true⟩
  | none =>
    ⟨Text.strip c.name, Text.strip c.heading, 0, c.within?.map Text.strip, false, !c.starred⟩

/-- Enters the kind that a `\newtheorem` command declares, if the text is one
    (`handle_declaration`). -/
def declareCommand? (r : TheoremRegister) (command : Text) :
    Option (TheoremKind × TheoremRegister) :=
  (NewTheorem.read? (Text.strip command)).map fun c =>
    let k := kindOf c.1
    (k, r.declare k)

/-- The number of an instance: the count, behind the section if the kind counts by it
    (`_display`). -/
def display (r : TheoremRegister) (k : TheoremKind) : Text :=
  if k.bySection then Text.ofInt r.sectionNumber ++ '.' :: Text.ofNat k.counter
  else Text.ofNat k.counter

/-- The kind with which a kind counts, if it is declared and another one. -/
def sharedParent? (r : TheoremRegister) (k : TheoremKind) : Option TheoremKind :=
  if !k.shared then none
  else match k.parent? with
    | none => none
    | some parent =>
      if parent.isEmpty || parent == sectionParent || parent == k.name then none
      else r.kinds.get? parent

/-- Counts one instance of a name and answers its number: none for names that are not declared or
    go without numbers (`next_number`). -/
def nextNumber (r : TheoremRegister) (name : Text) : Option Text × TheoremRegister :=
  match r.kinds.get? name with
  | none => (none, r)
  | some k =>
    if !k.numbered then (none, r)
    else match r.sharedParent? k with
      | some p =>
        let counted := { p with counter := p.counter + 1 }
        let r' := (r.declare counted).declare { k with counter := counted.counter }
        (some (r'.display counted), r')
      | none =>
        let counted := { k with counter := k.counter + 1 }
        let r' := r.declare counted
        (some (r'.display counted), r')

/-- Begins the section of a number; the kinds that count by section begin anew
    (`update_section`). -/
def enterSection (r : TheoremRegister) (number : Int) : TheoremRegister :=
  ⟨r.kinds.map fun e => (e.1, if e.2.bySection then { e.2 with counter := 0 } else e.2), number⟩

end TheoremRegister

end TexMark
