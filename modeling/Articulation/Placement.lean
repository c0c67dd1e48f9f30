import Articulation.Element.Basic
import Articulation.Pose.Basic
import Articulation.Settings.Basic
/-! Poses written as attributes. Of several rotations on one element only one counts, and one with
another number of values than it needs is passed over. -/
namespace Articulation

namespace Lookup

def vec4? (l : Lookup) (name : String) : Option (Float32 × Float32 × Float32 × Float32) :=
  match l.vector? 4 name with
  | some [a, b, c, d] => some (a, b, c, d)
  | _ => none

def axes? (l : Lookup) (name : String) : Option (Vec3 × Vec3) :=
  match l.floatArray? name with
  | some [a, b, c, d, e, f] => some (⟨a, b, c⟩, ⟨d, e, f⟩)
  | _ => none

/-- The rotation of an element: angles before components before a z axis before an axis with an angle
before frame axes. -/
def rotation (l : Lookup) (unit : AngleUnit) : Rotation :=
  if let some angles := l.vec3? "euler" then .ofEuler (angles.map unit.toRadians)
  else if let some (w, x, y, z) := l.vec4? "quat" then (Rotation.ofComponents? w x y z).getD .identity
  else if let some axis := l.vec3? "zaxis" then .shortestArc .unitZ axis
  else if let some (x, y, z, angle) := l.vec4? "axisangle" then
    .ofAxisAngle ⟨x, y, z⟩ (unit.toRadians angle)
  else if let some (x, y) := l.axes? "xyaxes" then (Rotation.ofFrameAxes? x y).getD .identity
  else .identity

def pose (l : Lookup) (unit : AngleUnit) : Pose := ⟨(l.vec3? "pos").getD .zero, l.rotation unit⟩

end Lookup

/-- The pose written by an origin element, a position and angles in radians; without the element none. -/
def Pose.ofOrigin (origin : Option Element) : Pose :=
  match origin with
  | none => .identity
  | some e => ⟨(e.own.vec3? "xyz").getD .zero, .ofEuler ((e.own.vec3? "rpy").getD .zero)⟩

end Articulation
