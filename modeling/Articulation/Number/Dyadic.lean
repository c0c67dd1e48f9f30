/-! The value of a 32-bit float as an exact dyadic number. A finite float is `±m * 2 ^ q`; the
reals that round to it reach half way to each neighbour, and the neighbour below a power of two is
half as far away as the one above. -/
namespace Articulation.Number

/-- The magnitude `m * 2 ^ q` of a finite 32-bit float. -/
structure Dyadic where
  m : Nat
  q : Int
  /-- The gap to the value below is half the gap to the value above. -/
  narrowBelow : Bool
deriving DecidableEq, Repr

inductive Binary32 where
  | nan
  | infinite (negative : Bool)
  | finite (negative : Bool) (magnitude : Dyadic)
deriving DecidableEq, Repr

def Binary32.ofBits (bits : UInt32) : Binary32 :=
  let negative := bits >>> 31 != 0
  let exponent := ((bits >>> 23) &&& 0xFF).toNat
  let fraction := (bits &&& 0x7FFFFF).toNat
  if exponent = 255 then
    if fraction = 0 then .infinite negative else .nan
  else if exponent = 0 then .finite negative ⟨fraction, -149, false⟩
  else .finite negative ⟨Nat.pow 2 23 + fraction, exponent - 150, fraction = 0 && exponent > 1⟩

def Binary32.ofFloat (x : Float32) : Binary32 := ofBits x.toBits

def Dyadic.quotient (x : Dyadic) : Nat × Nat := (x.m * Nat.pow 2 x.q.toNat, Nat.pow 2 (-x.q).toNat)

/-- The exponent of ten just above the leading digit of a magnitude other than zero: the magnitude
lies in `[10 ^ (top - 1), 10 ^ top)`. -/
def Dyadic.top (x : Dyadic) : Int :=
  let (num, den) := x.quotient
  if num < den then 1 - ((Nat.toDigits 10 ((den - 1) / num)).length : Int)
  else (Nat.toDigits 10 (num / den)).length

end Articulation.Number
