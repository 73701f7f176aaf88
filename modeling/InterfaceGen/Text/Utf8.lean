/-!
# UTF-8

A character is written as one to four bytes, a lead byte and its continuation bytes. `decode`
reads bytes back; where they are no text it says which ones cannot be read, namely the longest
beginning of a character that the offending byte breaks off, or that byte itself.
-/

namespace InterfaceGen.Text.Utf8

/-- Why bytes are no text. -/
inductive Cause where
  /-- No character begins with this byte. -/
  | invalidStart
  /-- The character that was begun does not go on with this byte. -/
  | invalidContinuation
  /-- The bytes end within a character. -/
  | unexpectedEnd
  deriving DecidableEq, Repr

/-- The cause in words. -/
def Cause.message : Cause → String
  | invalidStart => "invalid start byte"
  | invalidContinuation => "invalid continuation byte"
  | unexpectedEnd => "unexpected end of data"

/-- Bytes that cannot be read: the first of them, the offsets at which they begin and end, and
the cause. -/
structure DecodeError where
  first : UInt8
  start : Nat
  stop : Nat
  cause : Cause
  deriving DecidableEq, Repr

/-- A byte as two hexadecimal digits. -/
def hexByte (b : UInt8) : String :=
  String.ofList [Nat.digitChar (b.toNat / 16), Nat.digitChar (b.toNat % 16)]

/-- The error in words. -/
def DecodeError.message (e : DecodeError) : String :=
  "'utf-8' codec can't decode " ++
    (if e.stop = e.start + 1 then "byte 0x" ++ hexByte e.first ++ " in position " ++ toString e.start
      else "bytes in position " ++ toString e.start ++ "-" ++ toString (e.stop - 1)) ++
    ": " ++ e.cause.message

/-- A continuation byte that holds the lowest six bits of a number. -/
def tail (n : Nat) : UInt8 :=
  UInt8.ofNat (0x80 + n % 0x40)

/-- The bytes of a character. -/
def encodeChar (c : Char) : List UInt8 :=
  let n := c.toNat
  if n < 0x80 then [UInt8.ofNat n]
  else if n < 0x800 then [UInt8.ofNat (0xC0 + n / 0x40), tail n]
  else if n < 0x10000 then [UInt8.ofNat (0xE0 + n / 0x1000), tail (n / 0x40), tail n]
  else [UInt8.ofNat (0xF0 + n / 0x40000), tail (n / 0x1000), tail (n / 0x40), tail n]

/-- The bytes of a text. -/
def encode (text : List Char) : List UInt8 :=
  text.flatMap encodeChar

/-- What a lead byte begins: the bits that it holds, the number of continuation bytes, and the
range of the first of these. -/
structure Lead where
  bits : Nat
  tails : Nat
  low : Nat
  high : Nat

/-- The meaning of a byte at which a character begins. -/
def lead? (b : UInt8) : Option Lead :=
  let n := b.toNat
  if n < 0x80 then some ⟨n, 0, 0, 0⟩
  else if n < 0xC2 then none
  else if n < 0xE0 then some ⟨n - 0xC0, 1, 0x80, 0xBF⟩
  else if n = 0xE0 then some ⟨0, 2, 0xA0, 0xBF⟩
  else if n = 0xED then some ⟨0xD, 2, 0x80, 0x9F⟩
  else if n < 0xF0 then some ⟨n - 0xE0, 2, 0x80, 0xBF⟩
  else if n = 0xF0 then some ⟨0, 3, 0x90, 0xBF⟩
  else if n < 0xF4 then some ⟨n - 0xF0, 3, 0x80, 0xBF⟩
  else if n = 0xF4 then some ⟨4, 3, 0x80, 0x8F⟩
  else none

/-- A character of which bytes are missing. -/
structure Pending where
  first : UInt8
  start : Nat
  bits : Nat
  missing : Nat
  low : Nat
  high : Nat

/-- The characters of the bytes from an offset on, perhaps within a character. -/
def decodeFrom : Option Pending → Nat → List UInt8 → Except DecodeError (List Char)
  | none, _, [] => .ok []
  | some p, offset, [] => .error ⟨p.first, p.start, offset, .unexpectedEnd⟩
  | none, offset, b :: rest =>
    match lead? b with
    | none => .error ⟨b, offset, offset + 1, .invalidStart⟩
    | some l =>
      if l.tails = 0 then (Char.ofNat l.bits :: ·) <$> decodeFrom none (offset + 1) rest
      else decodeFrom (some ⟨b, offset, l.bits, l.tails, l.low, l.high⟩) (offset + 1) rest
  | some p, offset, b :: rest =>
    if p.low ≤ b.toNat ∧ b.toNat ≤ p.high then
      let bits := p.bits * 0x40 + b.toNat % 0x40
      if p.missing ≤ 1 then (Char.ofNat bits :: ·) <$> decodeFrom none (offset + 1) rest
      else
        decodeFrom (some ⟨p.first, p.start, bits, p.missing - 1, 0x80, 0xBF⟩) (offset + 1) rest
    else .error ⟨p.first, p.start, offset, .invalidContinuation⟩

/-- The characters of the bytes. -/
def decode (bytes : List UInt8) : Except DecodeError (List Char) :=
  decodeFrom none 0 bytes

end InterfaceGen.Text.Utf8
