import Articulation.Number.Reading
/-! Number literals of JSON and their values. The digits of a literal are kept as long as they fit into
64 bits; the number they make is then scaled by one power of ten, rounded once more. -/
namespace Articulation.Json

structure Numeral where
  negative : Bool
  whole : List Char
  fraction : Option (List Char)
  exponent : Option Int
deriving DecidableEq, Repr

namespace Numeral

def isWhole (n : Numeral) : Bool := n.fraction.isNone && n.exponent.isNone

/-- The value of a literal without point and exponent, in 64 bits with or without a sign. The negative
zero is no integer. -/
def integer? (n : Numeral) : Option Int :=
  let magnitude := Nat.ofDigitChars 10 n.whole 0
  if !n.isWhole then none
  else if n.negative then
    if 0 < magnitude ∧ Number.fitsInt64 (-magnitude) then some (-magnitude) else none
  else if magnitude < UInt64.size then some magnitude
  else none

def int64? (n : Numeral) : Option Int := n.integer?.filter Number.fitsInt64

/-- A number continued by digits as long as it fits into 64 bits, and the digits left over. -/
def takeDigits : Nat → List Char → Nat × List Char
  | n, [] => (n, [])
  | n, c :: cs =>
    let next := 10 * n + (c.toNat - '0'.toNat)
    if next < UInt64.size then takeDigits next cs else (n, c :: cs)

/-- The greatest power of ten that a 64-bit float holds in full range. -/
def greatestPower : Nat := 308

/-- A float times a power of ten, unless it grows beyond all floats. Far below the range it becomes
zero within a few steps. -/
def scale? (x : Float) (exponent : Int) : Nat → Option Float
  | 0 => some x
  | fuel + 1 =>
    if exponent.natAbs ≤ greatestPower then
      if 0 ≤ exponent then
        let scaled := x * Float.ofScientific 1 false exponent.natAbs
        if scaled.isInf then none else some scaled
      else some (x / Float.ofScientific 1 false exponent.natAbs)
    else if x == 0 then some x
    else if 0 ≤ exponent then none
    else scale? (x / Float.ofScientific 1 false greatestPower) (exponent + greatestPower) fuel

def magnitude? (n : Numeral) : Option Float :=
  let fraction := n.fraction.getD []
  let (digits, wholeLeft) := takeDigits 0 n.whole
  let (digits, fractionLeft) := takeDigits digits fraction
  let exponent := wholeLeft.length - (fraction.length - fractionLeft.length : Nat)
    + n.exponent.getD 0
  scale? (Float.ofNat digits) exponent 4

def binary64? (n : Numeral) : Option Float :=
  match n.integer? with
  | some value => some (Float.ofInt value)
  | none => n.magnitude?.map fun x => if n.negative then -x else x

/-- The value as a 32-bit float: integers are rounded once, all else through 64 bits. -/
def binary32? (n : Numeral) : Option Float32 :=
  match n.integer? with
  | some value => some (Float32.ofInt value)
  | none => n.binary64?.map Float.toFloat32

end Numeral

end Articulation.Json
