import Articulation.Number.Decimal
import Articulation.Number.Dyadic
/-! The fewest decimal digits that read back to the same 32-bit float. For one digit, two digits
and so on, the two neighbours of the value on the decimal grid are tested against the interval of
reals that round to it, in exact integer arithmetic. -/
namespace Articulation.Number

/-- Compares a decimal with `n * 2 ^ j`, exactly. -/
def Decimal.compareDyadic (d : Decimal) (n : Nat) (j : Int) : Ordering :=
  compare (d.digits * Nat.pow 10 d.exp.toNat * Nat.pow 2 (-j).toNat)
    (n * Nat.pow 2 j.toNat * Nat.pow 10 (-d.exp).toNat)

/-- Whether the decimal lies among the reals that round to the magnitude. Both ends of that interval
belong to it exactly when `m` is even, since a tie goes to the even neighbour. -/
def Dyadic.readsBack (x : Dyadic) (d : Decimal) : Bool :=
  let low := d.compareDyadic (if x.narrowBelow then 4 * x.m - 1 else 4 * x.m - 2) (x.q - 2)
  let high := d.compareDyadic (4 * x.m + 2) (x.q - 2)
  let closed := x.m % 2 == 0
  (low == .gt || (closed && low == .eq)) && (high == .lt || (closed && high == .eq))

/-- The candidate on the decimal grid of exponent `exp`: of the value's two neighbours the one that
reads back, of two such neighbours the closer, and the upper one on a tie. -/
def Dyadic.onGrid? (x : Dyadic) (exp : Int) : Option Decimal :=
  let (num, den) := x.quotient
  let num := num * Nat.pow 10 (-exp).toNat
  let den := den * Nat.pow 10 exp.toNat
  let lower : Decimal := ⟨num / den, exp⟩
  let upper : Decimal := ⟨num / den + 1, exp⟩
  match x.readsBack lower, x.readsBack upper with
  | true, true => some (if 2 * num < (2 * lower.digits + 1) * den then lower else upper)
  | true, false => some lower
  | false, true => some upper
  | false, false => none

/-- The digits of the magnitude itself, which always read back. -/
def Dyadic.exact (x : Dyadic) : Decimal :=
  ⟨x.m * Nat.pow 2 x.q.toNat * Nat.pow 5 (-x.q).toNat, -((-x.q).toNat : Int)⟩

/-- The decimal with the fewest digits that reads back. Nine digits suffice for 32 bits. -/
def Dyadic.shortest (x : Dyadic) : Decimal :=
  if x.m = 0 then ⟨0, 0⟩
  else ((List.range 9).findSome? fun n : Nat => x.onGrid? (x.top - (n + 1 : Nat))).getD x.exact

end Articulation.Number
