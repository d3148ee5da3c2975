import Criteria.Text

/-!
# Text/Encoding — texts as bytes

The three transformation formats of Unicode, read strictly: bytes that are not the one encoding of a
sequence of code points have no text.  `detect` tells the formats apart by a byte order mark, or
else by where the zero bytes of the first character stand.
-/

namespace Criteria.Text

/-- A format and, where a unit is longer than a byte, whether its first byte is the highest. -/
inductive Encoding
  | utf8
  | utf16 (bigEndian : Bool)
  | utf32 (bigEndian : Bool)
  deriving DecidableEq, Repr

namespace Encoding

/-- The character with a code point; a surrogate is none. -/
def char? (n : Nat) : Option Char :=
  if n.isValidChar then some (Char.ofNat n) else none

/-- The character with a code point of at least `least`. -/
def charFrom? (least n : Nat) : Option Char :=
  if least ≤ n then char? n else none

/-- The payload of a byte that continues a sequence. -/
def tail? (b : Nat) : Option Nat :=
  if 0x80 ≤ b ∧ b < 0xC0 then some (b - 0x80) else none

/-- The text of bytes in UTF-8. -/
def decode8 : List Nat → Option Text
  | [] => some []
  | a :: rest =>
    if a < 0x80 then (decode8 rest).map (Char.ofNat a :: ·)
    else if a < 0xC0 then none
    else if a < 0xE0 then
      match rest with
      | b :: rest => do
        let c ← charFrom? 0x80 ((a - 0xC0) * 0x40 + (← tail? b))
        (decode8 rest).map (c :: ·)
      | _ => none
    else if a < 0xF0 then
      match rest with
      | b :: c :: rest => do
        let c ← charFrom? 0x800 ((a - 0xE0) * 0x1000 + (← tail? b) * 0x40 + (← tail? c))
        (decode8 rest).map (c :: ·)
      | _ => none
    else if a < 0xF8 then
      match rest with
      | b :: c :: d :: rest => do
        let c ← charFrom? 0x10000 ((a - 0xF0) * 0x40000 + (← tail? b) * 0x1000 +
          (← tail? c) * 0x40 + (← tail? d))
        (decode8 rest).map (c :: ·)
      | _ => none
    else none

/-- The code point of two surrogates. -/
def joinSurrogates (high low : Nat) : Nat :=
  0x10000 + (high - 0xD800) * 0x400 + (low - 0xDC00)

/-- Whether a unit is the first of two surrogates. -/
def isHigh (n : Nat) : Bool := 0xD800 ≤ n && n < 0xDC00

/-- Whether a unit is the second of two surrogates. -/
def isLow (n : Nat) : Bool := 0xDC00 ≤ n && n < 0xE000

/-- The text of units in UTF-16. -/
def decode16 : List Nat → Option Text
  | [] => some []
  | a :: rest =>
    if isHigh a then
      match rest with
      | b :: rest =>
        if isLow b then do
          let c ← char? (joinSurrogates a b)
          (decode16 rest).map (c :: ·)
        else none
      | [] => none
    else do
      let c ← char? a
      (decode16 rest).map (c :: ·)

/-- Each two units of a list as one of twice the width. -/
def joinPairs (radix : Nat) (bigEndian : Bool) : List Nat → Option (List Nat)
  | [] => some []
  | a :: b :: rest =>
    (joinPairs radix bigEndian rest).map
      ((if bigEndian then a * radix + b else b * radix + a) :: ·)
  | [_] => none

/-- The text of bytes in an encoding. -/
def decode (encoding : Encoding) (bytes : List UInt8) : Option Text :=
  let ns := bytes.map UInt8.toNat
  match encoding with
  | utf8 => decode8 ns
  | utf16 bigEndian => do
    let units ← joinPairs 0x100 bigEndian ns
    decode16 units
  | utf32 bigEndian => do
    let halves ← joinPairs 0x100 bigEndian ns
    let points ← joinPairs 0x10000 bigEndian halves
    points.mapM char?

/-- The encoding of bytes whose first character is ASCII or a byte order mark, with the bytes after
the mark. -/
def detect (bytes : List UInt8) : Encoding × List UInt8 :=
  match bytes with
  | 0x00 :: 0x00 :: 0xFE :: 0xFF :: rest => (utf32 true, rest)
  | 0xFF :: 0xFE :: 0x00 :: 0x00 :: rest => (utf32 false, rest)
  | 0xFE :: 0xFF :: rest => (utf16 true, rest)
  | 0xFF :: 0xFE :: rest => (utf16 false, rest)
  | 0xEF :: 0xBB :: 0xBF :: rest => (utf8, rest)
  | a :: b :: c :: d :: _ =>
    if a = 0 then (if b = 0 then utf32 true else utf16 true, bytes)
    else if b = 0 then (if c = 0 ∧ d = 0 then utf32 false else utf16 false, bytes)
    else (utf8, bytes)
  | [a, b] =>
    if a = 0 then (utf16 true, bytes) else if b = 0 then (utf16 false, bytes) else (utf8, bytes)
  | _ => (utf8, bytes)

end Encoding

end Criteria.Text
