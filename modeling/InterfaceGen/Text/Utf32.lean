/-!
# UTF-32

A character is written as its code point in four bytes. The code points that are kept for halves
of pairs are read as the replacement character.
-/

namespace InterfaceGen.Text.Utf32

/-- The character of a code point; `none` for a number that is too great. -/
def char? (n : Nat) : Option Char :=
  if 0x110000 ≤ n then none
  else if 0xD800 ≤ n ∧ n < 0xE000 then some '\uFFFD'
  else some (Char.ofNat n)

/-- The text that bytes write, the greatest byte of a character first or last. -/
def decode? (greatestFirst : Bool) : List UInt8 → Option (List Char)
  | [] => some []
  | a :: b :: c :: d :: rest => do
    let bytes := if greatestFirst then [a, b, c, d] else [d, c, b, a]
    let first ← char? (bytes.foldl (fun n byte => 256 * n + byte.toNat) 0)
    let others ← decode? greatestFirst rest
    pure (first :: others)
  | _ => none

end InterfaceGen.Text.Utf32
