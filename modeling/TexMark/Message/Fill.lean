/-
  TexMark/Message/Fill.lean
  =========================
  **Messages with their values.** Values stand in a row, of which every directive takes the
  next one and which has to be used up. Or they are the members of one object, and directives
  name them; a directive without a name then takes the object or the value named last, and
  each of them once.

  `Message.fill` is the `getMessage` of a log record.
-/
import TexMark.Message.Value

namespace TexMark.Message

/-- The values of a message. -/
inductive Values where
  | inOrder (values : List Json)
  /-- The members of an object, and the value that may be taken next. -/
  | byName (members : Table Json) (next? : Option Json)

namespace Values

/-- Values as they are given: a sole object that has members lends their names. -/
def ofList : List Json → Values
  | [.obj (m :: ms)] => byName (m :: ms) (some (.obj (m :: ms)))
  | values => inOrder values

def take : Values → Except FormatError (Json × Values)
  | inOrder (v :: values) => .ok (v, inOrder values)
  | byName members (some v) => .ok (v, byName members none)
  | _ => .error .tooFewValues

def choose (values : Values) : Choice → Except FormatError Values
  | .next => .ok values
  | .unclosed => match values with
    | inOrder _ => .error .namesWithoutObject
    | byName _ _ => .error .incompleteName
  | .named name => match values with
    | inOrder _ => .error .namesWithoutObject
    | byName members _ => match members.get? name with
      | some v => .ok (byName members (some v))
      | none => .error (.noSuchName name)

def takeCount (values : Values) (measure : Measure) :
    Count → Except FormatError (Option Int × Values)
  | .absent => .ok (none, values)
  | .written n =>
    if Integer.fits measure.bits n then .ok (some n, values) else .error (.countTooBig measure)
  | .taken => do
    let (v, rest) ← values.take
    match integer? v with
    | none => .error .countNotInteger
    | some n =>
      if Integer.fits measure.bits n then .ok (some n, rest) else .error (.countTooLarge measure)

/-- Are all values used? Those of an object need not be. -/
def areUsed : Values → Bool
  | inOrder values => values.isEmpty
  | byName _ _ => true

end Values

/-- The layout of a directive with its counts. A negative width asks for blanks behind the
    value, but the least word has no positive counterpart and asks for none; a negative
    precision is zero. -/
def Directive.style (d : Directive) (width? precision? : Option Int) : Style :=
  let width := width?.getD 0
  { d.flags with
    leftAligned := d.flags.leftAligned || decide (width < 0)
    width := if Integer.fits Measure.width.bits (-width) then width.natAbs else 0
    precision? := precision?.map Int.toNat }

/-- What a directive writes, and the values that it leaves. The last character of the directive
    stands at `place`. -/
def Directive.fill (d : Directive) (place : Nat) (values : Values) :
    Except FormatError (Text × Values) := do
  let chosen ← values.choose d.choice
  let (width?, afterWidth) ← chosen.takeCount .width d.width
  let (precision?, afterPrecision) ← afterWidth.takeCount .precision d.precision
  match d.letter? with
  | none => .error .incomplete
  | some letter =>
    let (v, rest) ← afterPrecision.take
    return (← (d.style width? precision?).write letter place v, rest)

def fillPieces : List Piece → Values → Except FormatError Text
  | [], values => if values.areUsed then .ok [] else .error .tooManyValues
  | .char c :: ps, values => (fillPieces ps values).map (c :: ·)
  | .directive d place :: ps, values => do
    let (t, rest) ← d.fill place values
    return t ++ (← fillPieces ps rest)

/-- A message with its values (`getMessage`). A message without values is taken as it is. -/
def fill (message : Text) (values : List Json) : Except FormatError Text :=
  if values.isEmpty then .ok message else fillPieces (pieces message) (.ofList values)

end TexMark.Message
