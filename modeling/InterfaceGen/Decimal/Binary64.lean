/-!
# Numbers of double precision

A finite number is a sign and a magnitude `m · 2 ^ q` with at most 53 bits and an exponent that is
as small as these bits allow, but not below -1074. A ratio is rounded to the nearest such number,
and to the one with an even `m` if two are equally near.
-/

namespace InterfaceGen.Decimal

/-- A magnitude `mantissa · 2 ^ exponent`. -/
structure Magnitude where
  mantissa : Nat
  exponent : Int
  deriving DecidableEq, Repr

/-- A number of double precision. -/
inductive Binary64 where
  | finite (negative : Bool) (size : Magnitude)
  | infinite (negative : Bool)
  | nan
  deriving DecidableEq, Repr

/-- Is it a finite number? -/
def Binary64.isFinite : Binary64 → Bool
  | finite _ _ => true
  | _ => false

/-- The quotient rounded to the nearest integer, to the even one of two. -/
def roundDiv (num den : Nat) : Nat :=
  let floor := num / den
  let double := 2 * (num % den)
  if double < den then floor
  else if den < double then floor + 1
  else if floor % 2 = 0 then floor
  else floor + 1

/-- The ratio `num / den` times a power of two, as a ratio. -/
def scaleBinary (num den : Nat) (power : Int) : Nat × Nat :=
  if power < 0 then (num, den * Nat.pow 2 (-power).toNat) else (num * Nat.pow 2 power.toNat, den)

/-- The ratio `num / den` times a power of ten, as a ratio. -/
def scaleDecimal (num den : Nat) (power : Int) : Nat × Nat :=
  if power < 0 then (num, den * Nat.pow 10 (-power).toNat) else (num * Nat.pow 10 power.toNat, den)

namespace Magnitude

/-- No magnitude at all. -/
def zero : Magnitude := ⟨0, -1074⟩

/-- The magnitude as a ratio. -/
def ratio (x : Magnitude) : Nat × Nat :=
  scaleBinary x.mantissa 1 x.exponent

/-- The exponent at which a positive ratio has 53 bits, but not below the least one. -/
def exponentFor (num den : Nat) : Int :=
  let guess : Int := (num.log2 : Int) - (den.log2 : Int) - 52
  let (n, d) := scaleBinary num den (-guess)
  max (if n < d * Nat.pow 2 52 then guess - 1 else guess) (-1074)

/-- The magnitude nearest to a ratio; `none` if that is too large for one. -/
def ofRatio? (num den : Nat) : Option Magnitude :=
  if num = 0 ∨ den = 0 then some zero
  else
    let exponent := exponentFor num den
    let (n, d) := scaleBinary num den (-exponent)
    let mantissa := roundDiv n d
    let rounded : Magnitude :=
      if mantissa = Nat.pow 2 53 then ⟨Nat.pow 2 52, exponent + 1⟩ else ⟨mantissa, exponent⟩
    if 971 < rounded.exponent then none else some rounded

end Magnitude

namespace Binary64

/-- The number nearest to a ratio of this sign. -/
def ofRatio (negative : Bool) (num den : Nat) : Binary64 :=
  match Magnitude.ofRatio? num den with
  | some size => finite negative size
  | none => infinite negative

/-- The number nearest to an integer. -/
def ofInt (n : Int) : Binary64 :=
  ofRatio (n < 0) n.natAbs 1

/-- The number nearest to `digits · 10 ^ power`, where `length` is the number of digits. Numbers
beyond all magnitudes are told by their length, and are not computed. -/
def ofDecimal (negative : Bool) (digits length : Nat) (power : Int) : Binary64 :=
  if digits = 0 then finite negative .zero
  else if 310 < length + power then infinite negative
  else if length + power < -330 then finite negative .zero
  else
    let (n, d) := scaleDecimal digits 1 power
    ofRatio negative n d

/-- The quotient of two finite numbers; a quotient by zero is not a number. -/
def div : Binary64 → Binary64 → Binary64
  | finite s x, finite t y =>
    if y.mantissa = 0 then nan
    else
      let (a, b) := x.ratio
      let (c, d) := y.ratio
      ofRatio (s != t) (a * d) (b * c)
  | _, _ => nan

end Binary64

end InterfaceGen.Decimal
