import InterfaceGen.Decimal.Shortest

/-!
# Written numbers

`Binary64.display` writes the shortest digits that read back: with a point and at least one digit
on each side of it while the leading digit stands for at least a ten thousandth and less than
10 ^ 16, else with an exponent of at least two digits. `Binary64.tenths` writes one digit after
the point, the exact value rounded to it.
-/

namespace InterfaceGen.Decimal

/-- The least and the greatest exponent of the leading digit that is written without an
exponent. -/
def plainExponents : Int × Int := (-4, 15)

/-- The digits without the zeros that they end with, at least one, and the number of these. -/
def dropZeros : List Char → List Char
  | digits => (digits.reverse.dropWhile (· = '0')).reverse

/-- The exponent part of a number: its sign and at least two digits. -/
def exponentText (e : Int) : List Char :=
  let digits := Nat.toDigits 10 e.natAbs
  'e' :: (if e < 0 then '-' else '+') :: (List.replicate (2 - digits.length) '0' ++ digits)

/-- The digits of a number with the place of its point: `exponent` is that of the leading one. -/
def placePoint (digits : List Char) (exponent : Int) : List Char :=
  if exponent < plainExponents.1 ∨ plainExponents.2 < exponent then
    match digits with
    | [] => []
    | [d] => d :: exponentText exponent
    | d :: rest => d :: '.' :: (rest ++ exponentText exponent)
  else if exponent < 0 then
    '0' :: '.' :: (List.replicate (-exponent - 1).toNat '0' ++ digits)
  else
    let whole := exponent.toNat + 1
    let fraction := digits.drop whole
    digits.take whole ++ List.replicate (whole - digits.length) '0' ++
      '.' :: (if fraction.isEmpty then ['0'] else fraction)

/-- The text of a magnitude, in the shortest digits that read back. -/
def Magnitude.display (x : Magnitude) : List Char :=
  if x.mantissa = 0 then ['0', '.', '0']
  else
    let shortest := x.shortest
    let digits := Nat.toDigits 10 shortest.digits
    placePoint (dropZeros digits) (shortest.power + digits.length - 1)

/-- The text with the sign of a number. -/
def signed (negative : Bool) (text : String) : String :=
  if negative then "-" ++ text else text

namespace Binary64

/-- The text of a number, in the shortest digits that read back. -/
def display : Binary64 → String
  | finite negative size => signed negative (String.ofList size.display)
  | infinite negative => signed negative "inf"
  | nan => "nan"

/-- The text of a number with one digit after the point, half a tenth to the even one. -/
def tenths : Binary64 → String
  | finite negative size =>
    let (n, d) := size.ratio
    let rounded := roundDiv (10 * n) d
    signed negative (toString (rounded / 10) ++ "." ++ toString (rounded % 10))
  | infinite negative => signed negative "inf"
  | nan => "nan"

end Binary64

end InterfaceGen.Decimal
