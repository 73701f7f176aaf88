/-!
# Fingerprints

The fingerprint of a text is the value of its characters as a polynomial at 31, in arithmetic
modulo a power of two, written in hexadecimal. Different texts may share one. The width in bits may
be any number for which there is room.
-/

namespace InterfaceGen

/-- Why a fingerprint cannot be taken. -/
inductive FingerprintError where
  /-- The width in bits is below zero. -/
  | negativeWidth
  /-- There is no memory for a number of this width. -/
  | noMemory
  /-- No number is of this width. -/
  | beyondNumbers
  deriving DecidableEq, Repr

/-- The error in words; that there is no memory is told without any. -/
def FingerprintError.message : FingerprintError → String
  | .negativeWidth => "negative shift count"
  | .noMemory => ""
  | .beyondNumbers => "too many digits in integer"

namespace Fingerprint

/-- The number modulo `2 ^ bits`. The power is not computed for a number that is less. -/
def lowBits (bits n : Nat) : Nat :=
  if n.log2 < bits then n else n % Nat.pow 2 bits

/-- A number that is less than the power of two is its own remainder. -/
theorem lowBits_eq_mod (bits n : Nat) : lowBits bits n = n % Nat.pow 2 bits := by
  unfold lowBits
  split
  case isTrue h =>
    have below : n < Nat.pow 2 bits :=
      Nat.lt_of_lt_of_le Nat.lt_log2_self (Nat.pow_le_pow_right (by decide) h)
    exact (Nat.mod_eq_of_lt below).symm
  case isFalse => rfl

/-- The value of the characters at 31, modulo `2 ^ bits`. -/
def value (bits : Nat) (text : List Char) : Nat :=
  text.foldl (fun h c => lowBits bits (31 * h + c.toNat)) 0

/-- One more character multiplies the value and adds to it. -/
theorem value_snoc (bits : Nat) (text : List Char) (c : Char) :
    value bits (text ++ [c]) = (31 * value bits text + c.toNat) % Nat.pow 2 bits := by
  simp [value, List.foldl_append, lowBits_eq_mod]

/-- A number in hexadecimal, with small letters and no leading zeros. -/
def hex (n : Nat) : String :=
  String.ofList (Nat.toDigits 16 n)

/-- The width in bits from which on there is no memory for a number. It is that of one machine, with
32 gibibytes, and says only which widths are refused with `noMemory`. No other bound of a running
program is modelled, such as how deep the walks over a type may go. -/
def memoryLimit : Int := Int.ofNat (Nat.pow 2 38)

/-- The greatest width of a number: its digits of 30 bits are counted by a number of 63 bits, with
four bytes for each and a few for itself. -/
def widthLimit : Int := 30 * 2305843009213693944

/-- The fingerprint of a width that may be any integer. -/
def ofWidth (text : String) (bits : Int) : Except FingerprintError String :=
  if bits < 0 then .error .negativeWidth
  else if widthLimit < bits then .error .beyondNumbers
  else if memoryLimit ≤ bits then .error .noMemory
  else .ok (hex (value bits.toNat text.toList))

end Fingerprint

/-- The fingerprint of 64 bits. -/
def fingerprint (text : String) : String :=
  Fingerprint.hex (Fingerprint.value 64 text.toList)

end InterfaceGen
