import Articulation.Pose.Vector
/-! Rotations as unit quaternions, and the ways in which a document writes one: angles about the fixed
axes, components, a direction for the z axis, an axis with an angle, or two frame axes. -/
namespace Articulation

/-- A unit quaternion, scalar part first. -/
structure Rotation where
  w : Float32
  x : Float32
  y : Float32
  z : Float32
deriving DecidableEq, Repr, Inhabited

namespace Rotation

/-- Lengths below this count as zero when a rotation is read. -/
def tiny : Float32 := 1e-6

protected def identity : Rotation := ⟨1, 0, 0, 0⟩

def vector (q : Rotation) : Vec3 := ⟨q.x, q.y, q.z⟩

def ofParts (w : Float32) (v : Vec3) : Rotation := ⟨w, v.x, v.y, v.z⟩

protected def mul (a b : Rotation) : Rotation :=
  ⟨a.w * b.w - a.x * b.x - a.y * b.y - a.z * b.z,
   a.w * b.x + a.x * b.w + a.y * b.z - a.z * b.y,
   a.w * b.y - a.x * b.z + a.y * b.w + a.z * b.x,
   a.w * b.z + a.x * b.y - a.y * b.x + a.z * b.w⟩

instance : Mul Rotation := ⟨Rotation.mul⟩

def inverse (q : Rotation) : Rotation := ⟨q.w, -q.x, -q.y, -q.z⟩

def apply (q : Rotation) (v : Vec3) : Vec3 :=
  let t := (q.vector.cross v).scale 2
  t.scale q.w + q.vector.cross t + v

/-- Roll about x, then pitch about y, then yaw about z, all about fixed axes and in radians. -/
def ofEuler (angles : Vec3) : Rotation :=
  let half := angles.map (· * 0.5)
  let (sr, cr) := (half.x.sin, half.x.cos)
  let (sp, cp) := (half.y.sin, half.y.cos)
  let (sy, cy) := (half.z.sin, half.z.cos)
  ⟨cr * cp * cy + sr * sp * sy, sr * cp * cy - cr * sp * sy,
   cr * sp * cy + sr * cp * sy, cr * cp * sy - sr * sp * cy⟩

def ofComponents? (w x y z : Float32) : Option Rotation :=
  let norm := ((w * w + x * x) + (y * y + z * z)).sqrt
  if norm < tiny then none else some ⟨w / norm, x / norm, y / norm, z / norm⟩

def aboutUnit (axis : Vec3) (angle : Float32) : Rotation :=
  let half := angle / 2
  ofParts half.cos (axis.scale half.sin)

/-- The turn by `angle` radians about an axis of any length; about no axis, no turn. -/
def ofAxisAngle (axis : Vec3) (angle : Float32) : Rotation :=
  match axis.direction? tiny with
  | some unit => aboutUnit unit angle
  | none => .identity

/-- The least turn between two directions. Opposite directions have none. -/
def between? (a b : Vec3) : Option Rotation :=
  match a.direction? 0, b.direction? 0 with
  | some u, some v =>
    let cosine := u.dot v
    match (u.cross v).direction? epsilon with
    | some axis =>
      if cosine ≤ -1 then none
      else if 1 ≤ cosine then some .identity
      else some (aboutUnit axis cosine.acos)
    | none => if cosine < 0 then none else some .identity
  | _, _ => some .identity

/-- The least turn that takes one direction to another; for opposite directions half a turn about an
axis across them, and no turn when either is about zero. -/
def shortestArc (a b : Vec3) : Rotation :=
  if a.norm < tiny || b.norm < tiny then .identity
  else match between? a b with
    | some turn => turn
    | none =>
      let helper := if a.x.abs < 0.9 then Vec3.unitX else Vec3.unitY
      aboutUnit (a.cross helper).normalize pi

/-- The rotation whose matrix has the columns `x`, `y` and `z`. The branch taken keeps the square root
away from zero. -/
def ofColumns (x y z : Vec3) : Rotation :=
  let trace := x.x + y.y + z.z
  if 0 < trace then
    let d := (trace + 1).sqrt * 2
    ⟨0.25 * d, (y.z - z.y) / d, (z.x - x.z) / d, (x.y - y.x) / d⟩
  else if y.y < x.x && z.z < x.x then
    let d := (1 + x.x - y.y - z.z).sqrt * 2
    ⟨(y.z - z.y) / d, 0.25 * d, (y.x + x.y) / d, (z.x + x.z) / d⟩
  else if z.z < y.y then
    let d := (1 + y.y - x.x - z.z).sqrt * 2
    ⟨(z.x - x.z) / d, (y.x + x.y) / d, 0.25 * d, (z.y + y.z) / d⟩
  else
    let d := (1 + z.z - x.x - y.y).sqrt * 2
    ⟨(x.y - y.x) / d, (z.x + x.z) / d, (z.y + y.z) / d, 0.25 * d⟩

/-- The frame with the given x axis and, made square to it, the given y axis. -/
def ofFrameAxes? (xAxis yAxis : Vec3) : Option Rotation := do
  let x ← xAxis.direction? tiny
  let y ← (yAxis - x.scale (x.dot yAxis)).direction? tiny
  return ofColumns x y (x.cross y)

def rows (q : Rotation) : Vec3 × Vec3 × Vec3 :=
  let (ww, ii, jj, kk) := (q.w * q.w, q.x * q.x, q.y * q.y, q.z * q.z)
  let (ij, wk, wj) := (q.x * q.y * 2, q.w * q.z * 2, q.w * q.y * 2)
  let (ik, jk, wi) := (q.x * q.z * 2, q.y * q.z * 2, q.w * q.x * 2)
  (⟨ww + ii - jj - kk, ij - wk, wj + ik⟩,
   ⟨wk + ij, ww - ii + jj - kk, jk - wi⟩,
   ⟨ik - wj, wi + jk, ww - ii - jj + kk⟩)

end Rotation

end Articulation
