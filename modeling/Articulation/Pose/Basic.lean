import Articulation.Pose.Rotation
/-! Poses: a rotation followed by a shift. The product chains frames from the parent's side. -/
namespace Articulation

structure Pose where
  position : Vec3
  rotation : Rotation
deriving DecidableEq, Repr, Inhabited

namespace Pose

protected def identity : Pose := ⟨.zero, .identity⟩

protected def mul (a b : Pose) : Pose :=
  ⟨a.position + a.rotation.apply b.position, a.rotation * b.rotation⟩

instance : Mul Pose := ⟨Pose.mul⟩

def inverse (p : Pose) : Pose :=
  ⟨p.rotation.inverse.apply (-p.position), p.rotation.inverse⟩

/-- The pose of a child seen from its parent, both given in one outer frame. -/
def relative (parent child : Pose) : Pose := parent.inverse * child

def matrix (p : Pose) : List (List Float32) :=
  let (a, b, c) := p.rotation.rows
  [a.toList ++ [p.position.x], b.toList ++ [p.position.y], c.toList ++ [p.position.z],
   [0, 0, 0, 1]]

end Pose

end Articulation
