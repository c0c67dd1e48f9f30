import Articulation.Asset.Basic
import Articulation.Pose.Basic
/-! Shapes of colliders and drawables in one convention for every dialect, and their volumes. -/
namespace Articulation

inductive ShapeKind where
  | box
  | plane
  | sphere
  | cylinder
  | capsule
  | ellipsoid
  | mesh
  | heightfield
deriving DecidableEq, Repr

namespace ShapeKind

def ofKeyword? : String → Option ShapeKind
  | "box" => some box
  | "plane" => some plane
  | "sphere" => some sphere
  | "cylinder" => some cylinder
  | "capsule" => some capsule
  | "ellipsoid" => some ellipsoid
  | "mesh" => some mesh
  | "hfield" => some heightfield
  | "heightfield" => some heightfield
  | _ => none

def keyword : ShapeKind → String
  | box => "box"
  | plane => "plane"
  | sphere => "sphere"
  | cylinder => "cylinder"
  | capsule => "capsule"
  | ellipsoid => "ellipsoid"
  | mesh => "mesh"
  | heightfield => "hfield"

theorem ofKeyword?_keyword (kind : ShapeKind) : ofKeyword? kind.keyword = some kind := by
  cases kind <;> rfl

end ShapeKind

/-- A shape. What `size` holds depends on the kind: the full extents of a box, width and depth of a
plane, the radius of a sphere, radius and length of a cylinder or capsule, the radii of an ellipsoid,
the scale of a mesh, and radii with elevation for a heightfield. -/
structure Shape where
  kind : ShapeKind
  size : Vec3
  mesh : Option Mesh
  heightfield : Option Heightfield
  /-- The frame of the shape in its body. -/
  pose : Pose
  /-- Whether the frame was derived from the two ends of a segment. -/
  fromSegment : Bool
deriving DecidableEq, Repr

namespace Shape

def ofSize (kind : ShapeKind) (size : Vec3) : Shape := ⟨kind, size, none, none, .identity, false⟩

def placed (shape : Shape) (pose : Pose) : Shape := { shape with pose }

def ballVolume : Float32 := 4 / 3 * pi

/-- The enclosed volume. A plane, a mesh and a heightfield have none. -/
def volume? (shape : Shape) : Option Float32 :=
  let ⟨a, b, c⟩ := shape.size
  match shape.kind with
  | .box => some (a * b * c)
  | .sphere => some (ballVolume * (a * (a * a)))
  | .ellipsoid => some (ballVolume * a * b * c)
  | .cylinder => some (pi * a * a * b)
  | .capsule => some (pi * a * a * b + ballVolume * (a * (a * a)))
  | .plane | .mesh | .heightfield => none

end Shape

end Articulation
