/-!
# UTF-16

A character is written as one unit of two bytes, or as a pair of units from the ranges that are
kept for halves of pairs. Half of a pair alone is read as the replacement character.
-/

namespace InterfaceGen.Text.Utf16

/-- Is the number the first half of a surrogate pair? -/
def isHighSurrogate (n : Nat) : Bool := 0xD800 ≤ n && n < 0xDC00

/-- Is the number the second half of a surrogate pair? -/
def isLowSurrogate (n : Nat) : Bool := 0xDC00 ≤ n && n < 0xE000

/-- The characters of code points, where pairs of surrogates are one character. -/
def joinSurrogates : List Nat → List Char
  | [] => []
  | [n] => [if 0xD800 ≤ n ∧ n < 0xE000 then '\uFFFD' else Char.ofNat n]
  | high :: low :: rest =>
    if isHighSurrogate high && isLowSurrogate low then
      Char.ofNat (0x10000 + (high - 0xD800) * 0x400 + (low - 0xDC00)) :: joinSurrogates rest
    else
      (if 0xD800 ≤ high ∧ high < 0xE000 then '\uFFFD' else Char.ofNat high) ::
        joinSurrogates (low :: rest)

/-- The units that pairs of bytes write, the greater byte first or last; `none` if a byte is left
over. -/
def units? (greaterFirst : Bool) : List UInt8 → Option (List Nat)
  | [] => some []
  | [_] => none
  | a :: b :: rest =>
    let unit := if greaterFirst then 256 * a.toNat + b.toNat else 256 * b.toNat + a.toNat
    (units? greaterFirst rest).map (unit :: ·)

/-- The text that bytes write. -/
def decode? (greaterFirst : Bool) (bytes : List UInt8) : Option (List Char) :=
  (units? greaterFirst bytes).map joinSurrogates

end InterfaceGen.Text.Utf16
