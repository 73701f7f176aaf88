import InterfaceGen.Text.Hexadecimal

/-!
# Percent escapes

A percent sign before two hexadecimal digits stands for a byte. Only the bytes of ASCII characters
are read here; escapes of others, and percent signs without digits, stay as they are.
-/

namespace InterfaceGen.Text.Percent

/-- The ASCII character that two hexadecimal digits write. -/
def ascii? (high low : Char) : Option Char := do
  let high ← hexValue? high
  let low ← hexValue? low
  if high < 8 then some (Char.ofNat (16 * high + low)) else none

/-- The text without escapes of ASCII characters. -/
def decode : List Char → List Char
  | '%' :: high :: low :: rest =>
    match ascii? high low with
    | some c => c :: decode rest
    | none => '%' :: decode (high :: low :: rest)
  | c :: rest => c :: decode rest
  | [] => []

end InterfaceGen.Text.Percent
