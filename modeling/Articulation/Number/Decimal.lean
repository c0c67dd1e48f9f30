/-! Decimals `digits * 10 ^ exp`, the exact quotient rounded to an integer, and the reading of a
decimal as a binary floating-point number, rounded once to nearest with ties to even. -/
namespace Articulation.Number

/-- The non-negative decimal `digits * 10 ^ exp`. -/
structure Decimal where
  digits : Nat
  exp : Int
deriving DecidableEq, Repr

/-- How many digits a natural number has; zero has one. -/
def digitCount (n : Nat) : Nat := (Nat.toDigits 10 n).length

/-- The quotient rounded to the nearest integer, a half to the even neighbour. -/
def roundQuotient (num den : Nat) : Nat :=
  let quotient := num / den
  match compare (2 * (num % den)) den with
  | .lt => quotient
  | .gt => quotient + 1
  | .eq => if quotient % 2 = 0 then quotient else quotient + 1

/-- The exponent of ten just above the leading digit: the value lies in `[10 ^ (top - 1), 10 ^ top)`. -/
def Decimal.top (d : Decimal) : Int := digitCount d.digits + d.exp

/-- The nearest 32-bit float. Far outside the range of the format no power of ten is computed. -/
def Decimal.toBinary32 (d : Decimal) : Float32 :=
  if d.digits = 0 ∨ d.top < -50 then 0
  else if d.top > 40 then 1 / 0
  else Float32.ofScientific d.digits (d.exp < 0) d.exp.natAbs

def Decimal.toBinary64 (d : Decimal) : Float :=
  if d.digits = 0 ∨ d.top < -330 then 0
  else if d.top > 310 then 1 / 0
  else Float.ofScientific d.digits (d.exp < 0) d.exp.natAbs

end Articulation.Number
