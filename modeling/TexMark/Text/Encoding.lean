/-
  TexMark/Text/Encoding.lean
  ==========================
  **Bytes and characters.** Files hold texts in UTF-8. A sequence of bytes that is no text
  is refused with the place and the cause. Requests may also come in UTF-16 and UTF-32,
  which are told by their first bytes.
-/
import TexMark.Text.Basic

namespace TexMark.Encoding

/-- Bytes are numbers below 256. -/
abbrev Bytes := List Nat

/-! ### UTF-8 -/

/-- Why bytes are no text in UTF-8. -/
inductive Reason where
  /-- No character begins with this byte. -/
  | invalidStart
  /-- The character that began does not go on with this byte. -/
  | invalidContinuation
  /-- The bytes end within a character. -/
  | unexpectedEnd
deriving DecidableEq, Repr

def Reason.text : Reason → Text
  | invalidStart => "invalid start byte"
  | invalidContinuation => "invalid continuation byte"
  | unexpectedEnd => "unexpected end of data"

/-- The bytes from `start` up to `stop` are no character; `first` is the first of them. -/
structure DecodeError where
  first : Nat
  start : Nat
  stop : Nat
  reason : Reason
deriving DecidableEq, Repr

def DecodeError.message (e : DecodeError) : Text :=
  let place : Text :=
    if e.stop = e.start + 1 then
      "byte 0x" ++ Text.hex 2 e.first ++ " in position " ++ Text.ofNat e.start
    else "bytes in position " ++ Text.ofNat e.start ++ "-" ++ Text.ofNat (e.stop - 1)
  "'utf-8' codec can't decode " ++ place ++ ": " ++ e.reason.text

def isTail (b : Nat) : Bool := 0x80 ≤ b && b < 0xC0

/-- How a character begins: how many bytes it has, the bits of the first of them, and the
    range of the second. -/
structure Lead where
  size : Nat
  bits : Nat
  low : Nat
  high : Nat

/-- What the first byte of a character says. With `surrogates` the halves of surrogate
    pairs count as characters. -/
def lead? (surrogates : Bool) (b : Nat) : Option Lead :=
  if b < 0x80 then some ⟨1, b, 0x80, 0xBF⟩
  else if b < 0xC2 then none
  else if b < 0xE0 then some ⟨2, b - 0xC0, 0x80, 0xBF⟩
  else if b < 0xF0 then
    some ⟨3, b - 0xE0, if b = 0xE0 then 0xA0 else 0x80,
      if b = 0xED && !surrogates then 0x9F else 0xBF⟩
  else if b < 0xF5 then
    some ⟨4, b - 0xF0, if b = 0xF0 then 0x90 else 0x80, if b = 0xF4 then 0x8F else 0xBF⟩
  else none

/-- The bytes of a character behind the first one, as far as they are right. -/
def tails (l : Lead) (rest : Bytes) : Bytes :=
  match rest.take (l.size - 1) with
  | [] => []
  | b :: bs => if l.low ≤ b && b ≤ l.high then b :: bs.takeWhile isTail else []

/-- The code point of the bits of a first byte and the bytes behind it. -/
def codePoint (bits : Nat) (following : Bytes) : Nat :=
  following.foldl (fun n b => 64 * n + (b - 0x80)) bits

/-- The character of a code point; half of a surrogate pair is replaced. -/
def charOf (n : Nat) : Char := if 0xD800 ≤ n ∧ n < 0xE000 then Char.ofNat 0xFFFD else Char.ofNat n

/-- Decodes the bytes from offset `pos`, of which the first `skip` have been read. -/
def decodeFrom (surrogates : Bool) (pos skip : Nat) : Bytes → Except DecodeError Text
  | [] => .ok []
  | b :: rest =>
    match skip with
    | skip + 1 => decodeFrom surrogates (pos + 1) skip rest
    | 0 => match lead? surrogates b with
      | none => .error ⟨b, pos, pos + 1, .invalidStart⟩
      | some l =>
        let following := tails l rest
        let stop := pos + 1 + following.length
        if following.length + 1 = l.size then
          (decodeFrom surrogates (pos + 1) following.length rest).map
            (charOf (codePoint l.bits following) :: ·)
        else if rest.length = following.length then .error ⟨b, pos, stop, .unexpectedEnd⟩
        else .error ⟨b, pos, stop, .invalidContinuation⟩

def decodeUtf8 (bytes : Bytes) : Except DecodeError Text := decodeFrom false 0 0 bytes

def utf8Char (c : Char) : Bytes :=
  let n := c.toNat
  if n < 0x80 then [n]
  else if n < 0x800 then [0xC0 + n / 64, 0x80 + n % 64]
  else if n < 0x10000 then [0xE0 + n / 4096, 0x80 + n / 64 % 64, 0x80 + n % 64]
  else [0xF0 + n / 262144, 0x80 + n / 4096 % 64, 0x80 + n / 64 % 64, 0x80 + n % 64]

def encodeUtf8 (t : Text) : Bytes := t.flatMap utf8Char

/-! ### UTF-16 and UTF-32 -/

def units16? (bigEndian : Bool) : Bytes → Option (List Nat)
  | [] => some []
  | [_] => none
  | a :: b :: rest =>
    (units16? bigEndian rest).map ((if bigEndian then 256 * a + b else 256 * b + a) :: ·)

def ofUnits16 : List Nat → Text
  | [] => []
  | high :: low :: rest =>
    if 0xD800 ≤ high ∧ high < 0xDC00 ∧ 0xDC00 ≤ low ∧ low < 0xE000 then
      Char.ofNat (0x10000 + (high - 0xD800) * 0x400 + (low - 0xDC00)) :: ofUnits16 rest
    else charOf high :: ofUnits16 (low :: rest)
  | [n] => [charOf n]

def decodeUtf16? (bigEndian : Bool) (bytes : Bytes) : Option Text :=
  (units16? bigEndian bytes).map ofUnits16

def decodeUtf32? (bigEndian : Bool) : Bytes → Option Text
  | [] => some []
  | a :: b :: c :: d :: rest =>
    let n := if bigEndian then ((256 * a + b) * 256 + c) * 256 + d
      else ((256 * d + c) * 256 + b) * 256 + a
    if n < 0x110000 then (decodeUtf32? bigEndian rest).map (charOf n :: ·) else none
  | _ => none

/-! ### Telling the encoding -/

/-- The text of some bytes in UTF-8, halves of surrogate pairs included. -/
def decodeLoose? (bytes : Bytes) : Option Text :=
  match decodeFrom true 0 0 bytes with
  | .ok t => some t
  | .error _ => none

/-- The text of bytes that begin without a byte order mark: the zeros among the first bytes
    show the width of the units. -/
def decodeUnmarked? (bytes : Bytes) : Option Text :=
  match bytes with
  | [a, b] =>
    if a = 0 then decodeUtf16? true bytes
    else if b = 0 then decodeUtf16? false bytes
    else decodeLoose? bytes
  | a :: b :: c :: d :: _ =>
    if a = 0 then if b = 0 then decodeUtf32? true bytes else decodeUtf16? true bytes
    else if b = 0 then
      if c = 0 ∧ d = 0 then decodeUtf32? false bytes else decodeUtf16? false bytes
    else decodeLoose? bytes
  | _ => decodeLoose? bytes

/-- The text of bytes in UTF-8, UTF-16 or UTF-32, without its byte order mark. -/
def decodeAny? (bytes : Bytes) : Option Text :=
  match bytes with
  | 0 :: 0 :: 0xFE :: 0xFF :: rest => decodeUtf32? true rest
  | 0xFF :: 0xFE :: 0 :: 0 :: rest => decodeUtf32? false rest
  | 0xFE :: 0xFF :: rest => decodeUtf16? true rest
  | 0xFF :: 0xFE :: rest => decodeUtf16? false rest
  | 0xEF :: 0xBB :: 0xBF :: rest => decodeLoose? rest
  | _ => decodeUnmarked? bytes

end TexMark.Encoding
