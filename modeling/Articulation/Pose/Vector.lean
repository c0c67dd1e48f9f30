/-! Vectors of three 32-bit floats. Sums run left to right, so a result is the same wherever a formula
is written. -/
namespace Articulation

structure Vec3 where
  x : Float32
  y : Float32
  z : Float32
deriving DecidableEq, Repr, Inhabited

def pi : Float32 := 3.1415927

/-- The gap between one and the next 32-bit float. -/
def epsilon : Float32 := 1.1920929e-7

namespace Vec3

def zero : Vec3 := ⟨0, 0, 0⟩
def unitX : Vec3 := ⟨1, 0, 0⟩
def unitY : Vec3 := ⟨0, 1, 0⟩
def unitZ : Vec3 := ⟨0, 0, 1⟩

def splat (value : Float32) : Vec3 := ⟨value, value, value⟩

def ofList? : List Float32 → Option Vec3
  | [x, y, z] => some ⟨x, y, z⟩
  | _ => none

def toList (v : Vec3) : List Float32 := [v.x, v.y, v.z]

def map (f : Float32 → Float32) (v : Vec3) : Vec3 := ⟨f v.x, f v.y, f v.z⟩

instance : Add Vec3 := ⟨fun a b => ⟨a.x + b.x, a.y + b.y, a.z + b.z⟩⟩
instance : Sub Vec3 := ⟨fun a b => ⟨a.x - b.x, a.y - b.y, a.z - b.z⟩⟩
instance : Neg Vec3 := ⟨map fun c => -c⟩

def scale (v : Vec3) (factor : Float32) : Vec3 := v.map (· * factor)

def dot (a b : Vec3) : Float32 := a.x * b.x + a.y * b.y + a.z * b.z

def cross (a b : Vec3) : Vec3 :=
  ⟨a.y * b.z - a.z * b.y, a.z * b.x - a.x * b.z, a.x * b.y - a.y * b.x⟩

def normSq (v : Vec3) : Float32 := v.dot v

def norm (v : Vec3) : Float32 := v.normSq.sqrt

def normalize (v : Vec3) : Vec3 := v.map (· / v.norm)

/-- The direction of a vector longer than `least`. Squares are compared, so a vector whose square
overflows becomes zero and one with a component that is not a number has no direction. -/
def direction? (v : Vec3) (least : Float32) : Option Vec3 :=
  if least * least < v.normSq then some v.normalize else none

/-- Whether two floats are equal up to a hundred-thousandth or up to their last digit. -/
def isClose (a b : Float32) : Bool :=
  a == b || (a.isFinite && b.isFinite
    && ((a - b).abs ≤ 1e-5 || (a - b).abs ≤ (if a.abs < b.abs then b.abs else a.abs) * epsilon))

def agrees (a b : Vec3) : Bool := isClose a.x b.x && isClose a.y b.y && isClose a.z b.z

end Vec3

end Articulation
