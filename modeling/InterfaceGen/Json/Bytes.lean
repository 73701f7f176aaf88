import InterfaceGen.Json.Reader
import InterfaceGen.Text.Utf16
import InterfaceGen.Text.Utf32
import InterfaceGen.Text.Utf8

/-!
# JSON in bytes

The first characters of a JSON text are ASCII, so that the zeros among the first bytes tell how
wide the characters are and which of their bytes comes first.
-/

namespace InterfaceGen

namespace Json

/-- How characters are written as bytes. -/
inductive Encoding where
  | utf8
  | utf16 (greaterFirst : Bool)
  | utf32 (greatestFirst : Bool)
  deriving DecidableEq, Repr

namespace Encoding

/-- The encoding of a JSON text. -/
def detect : List UInt8 → Encoding
  | [0, _] => .utf16 true
  | [_, 0] => .utf16 false
  | 0 :: 0 :: _ :: _ :: _ => .utf32 true
  | 0 :: _ :: _ :: _ :: _ => .utf16 true
  | _ :: 0 :: 0 :: 0 :: _ => .utf32 false
  | _ :: 0 :: _ :: _ :: _ => .utf16 false
  | _ => .utf8

/-- The text that bytes write. A byte-order mark at the beginning of UTF-8 is left out. -/
def decode? (bytes : List UInt8) : Encoding → Option (List Char)
  | .utf8 =>
    match Text.Utf8.decode bytes with
    | .ok ('\uFEFF' :: chars) => some chars
    | .ok chars => some chars
    | .error _ => none
  | .utf16 greaterFirst => Text.Utf16.decode? greaterFirst bytes
  | .utf32 greatestFirst => Text.Utf32.decode? greatestFirst bytes

end Encoding

/-- The value that bytes write. -/
def ofBytes (bytes : List UInt8) : Except JsonError Json :=
  match (Encoding.detect bytes).decode? bytes with
  | none => .error .undecodable
  | some chars => read (String.ofList chars)

end Json

end InterfaceGen
