import Articulation.Number.Shortest
/-! Texts of 32-bit floats: every digit in its place, a set number of places, or a leading digit with
an exponent. Not-a-number is never signed; zero keeps its sign. -/
namespace Articulation.Number

def signed (x : Float32) (magnitude : Dyadic → String) : String :=
  let mark (negative : Bool) := if negative then "-" else ""
  match Binary32.ofFloat x with
  | .nan => "NaN"
  | .infinite negative => mark negative ++ "inf"
  | .finite negative value => mark negative ++ magnitude value

def stripZeros (digits : List Char) : List Char := (digits.reverse.dropWhile (· == '0')).reverse

/-- The decimal with every digit in its place: as many zeros as needed on either side of the point,
and a point only before a fraction. -/
def Decimal.positional (d : Decimal) : String :=
  let digits := Nat.toDigits 10 d.digits
  if d.exp ≥ 0 then
    String.ofList (if d.digits = 0 then digits else digits ++ List.replicate d.exp.toNat '0')
  else
    let places := d.exp.natAbs
    let padded := List.replicate (places + 1 - digits.length) '0' ++ digits
    let whole := padded.take (padded.length - places)
    let fraction := stripZeros (padded.drop (padded.length - places))
    String.ofList (if fraction.isEmpty then whole else whole ++ '.' :: fraction)

/-- The fewest digits that identify the float, every digit in its place. -/
def plain (x : Float32) : String := signed x fun value => value.shortest.positional

/-- The fewest digits that identify the float, with a fraction even when it is zero; an exponent is
written below one ten-thousandth and from ten to the sixteenth on. -/
def pointed (x : Float32) : String :=
  signed x fun value =>
    let d := value.shortest
    let digits := stripZeros (Nat.toDigits 10 d.digits)
    if value.m = 0 then "0.0"
    else if -4 < d.top ∧ d.top ≤ 16 then
      let text := d.positional
      if text.contains '.' then text else text ++ ".0"
    else
      let fraction := digits.drop 1
      String.ofList (digits.take 1 ++ if fraction.isEmpty then [] else '.' :: fraction)
        ++ "e" ++ toString (d.top - 1)

def withPlaces (n places : Nat) : String :=
  let digits := Nat.toDigits 10 n
  let padded := List.replicate (places + 1 - digits.length) '0' ++ digits
  let whole := padded.take (padded.length - places)
  String.ofList (if places = 0 then whole else whole ++ '.' :: padded.drop (padded.length - places))

/-- The exact value rounded to `places` digits behind the point, a half to the even neighbour. -/
def fixed (places : Nat) (x : Float32) : String :=
  signed x fun value =>
    let (num, den) := value.quotient
    withPlaces (roundQuotient (num * Nat.pow 10 places) den) places

/-- One digit before the point, `places` behind it and a power of ten: the exact value rounded, a half
to the even neighbour. -/
def scientific (places : Nat) (x : Float32) : String :=
  signed x fun value =>
    if value.m = 0 then withPlaces 0 places ++ "e0"
    else
      let (num, den) := value.quotient
      let exponent := value.top - 1
      let shift := places - exponent
      let rounded := roundQuotient (num * Nat.pow 10 shift.toNat) (den * Nat.pow 10 (-shift).toNat)
      if rounded = Nat.pow 10 (places + 1) then
        withPlaces (Nat.pow 10 places) places ++ "e" ++ toString (exponent + 1)
      else withPlaces rounded places ++ "e" ++ toString exponent

end Articulation.Number
