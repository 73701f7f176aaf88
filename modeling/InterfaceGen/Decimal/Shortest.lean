import InterfaceGen.Decimal.Binary64

/-!
# The fewest digits that read back

Every real number between a magnitude's two rounding limits is rounded to it; the limits themselves
are if its mantissa is even. The shortest digits are those of the first decimal grid, from one
digit up to 17, that has a point there, and of two points the one nearer to the magnitude.
-/

namespace InterfaceGen.Decimal

/-- A decimal `digits · 10 ^ power`. -/
structure Digits where
  digits : Nat
  power : Int
  deriving DecidableEq, Repr

namespace Magnitude

/-- The limits below and above which a number is no longer rounded to a magnitude, in quarters of
its last bit. Below a power of two the numbers lie twice as close. -/
def limits (x : Magnitude) : Nat × Nat :=
  (4 * x.mantissa - (if x.mantissa = Nat.pow 2 52 ∧ -1074 < x.exponent then 1 else 2),
    4 * x.mantissa + 2)

/-- Is `num / den` rounded to the magnitude? -/
def admits (x : Magnitude) (num den : Nat) : Bool :=
  let (low, high) := x.limits
  let (a, b) := scaleBinary low 1 (x.exponent - 2)
  let (c, d) := scaleBinary high 1 (x.exponent - 2)
  if x.mantissa % 2 = 0 then a * den ≤ num * b && num * d ≤ c * den
  else a * den < num * b && num * d < c * den

/-- The number of decimal places before the point, less one, of a positive ratio; tried downwards
from a bound. -/
def decimalExponentFrom (num den : Nat) : Nat → Int → Int
  | 0, e => e
  | budget + 1, e =>
    let (n, d) := scaleDecimal num den (-e)
    if d ≤ n then e else decimalExponentFrom num den budget (e - 1)

/-- The exponent of the leading decimal digit of a positive magnitude. -/
def decimalExponent (x : Magnitude) : Int :=
  let (n, d) := x.ratio
  let bits : Int := (n.log2 : Int) - (d.log2 : Int)
  let bound := Int.fdiv (bits * 30103) 100000 + 2
  decimalExponentFrom n d 6 bound

/-- The points of a decimal grid next to the magnitude, the nearer one first. -/
def neighbours (x : Magnitude) (power : Int) : List Digits :=
  let (n, d) := x.ratio
  let (n, d) := scaleDecimal n d (-power)
  let floor := n / d
  let nearer := roundDiv n d
  if nearer = floor then [⟨floor, power⟩, ⟨floor + 1, power⟩]
  else [⟨floor + 1, power⟩, ⟨floor, power⟩]

/-- The point of a grid that is rounded to the magnitude, the nearer one of two. -/
def hit? (x : Magnitude) (power : Int) : Option Digits :=
  (x.neighbours power).find? fun p =>
    let (n, d) := scaleDecimal p.digits 1 p.power
    x.admits n d

/-- The shortest digits of a positive magnitude. -/
def shortest (x : Magnitude) : Digits :=
  let leading := x.decimalExponent
  ((List.range 17).findSome? fun (count : Nat) => x.hit? (leading - count)).getD ⟨0, 0⟩

end Magnitude

end InterfaceGen.Decimal
