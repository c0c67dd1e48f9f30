import Articulation.Defaults
import Articulation.Placement
import Articulation.Session
/-! Shapes from the size conventions of the dialects. A malformed size never stops a compilation: the
misfit is reported and a standard size stands in. -/
namespace Articulation

inductive Misfit where
  | unknownType (keyword : String)
  | planeWithoutSize
  | sphereWithoutRadius
  | sphereSizes (count : Nat)
  | boxHalves (count : Nat)
  | ellipsoidRadii (count : Nat)
  | tubeSizes (kind : ShapeKind) (count : Nat)
  | segmentValues (count : Nat)
  | segmentWithoutRadius
  | meshWithoutReference
  | boxWithoutExtents
  | tubeWithoutSizes (kind : ShapeKind)
  | meshWithoutFile
  | noGeometry (element : String)
  | unknownSolid (keyword : String)
  | meshAssetWithoutFile
  | gridSizes
  | noInertia
deriving DecidableEq, Repr

namespace Misfit

def message : Misfit → String
  | unknownType keyword => s!"unsupported geom type '{keyword}', using a sphere"
  | planeWithoutSize => "plane without size, using 3x3"
  | sphereWithoutRadius => "sphere without radius, using 0.1"
  | sphereSizes count => s!"sphere takes 1 size value, got {count}; using the first"
  | boxHalves count => s!"box needs 3 half-extents, got {count}"
  | ellipsoidRadii count => s!"ellipsoid needs 3 radii, got {count}"
  | tubeSizes kind count => s!"{kind.keyword} needs radius and half-length, got {count} values"
  | segmentValues count => s!"fromto needs 6 values, got {count}"
  | segmentWithoutRadius => "fromto segment without radius, using a quarter of its length"
  | meshWithoutReference => "mesh geom without a mesh reference"
  | boxWithoutExtents => "box needs 3 extents"
  | tubeWithoutSizes kind => s!"{kind.keyword} needs radius and length"
  | meshWithoutFile => "mesh without filename"
  | noGeometry element => s!"<{element}> without a usable geometry"
  | unknownSolid keyword => s!"unsupported rlsim shape '{keyword}', using a box"
  | meshAssetWithoutFile => "mesh asset without a file, ignored"
  | gridSizes => "hfield needs 4 size values"
  | noInertia => "inertial without diaginertia or fullinertia, using zeros"

end Misfit

namespace Geometry

def standardPlane : Vec3 := ⟨3, 3, 0⟩

def standardRadius : Float32 := 0.1

def standardTube : Vec3 := ⟨0.05, 0.1, 0⟩

def standardBox : Vec3 := .splat 0.2

def standardEllipsoid : Vec3 := .splat 0.1

def misfit (label : String) (m : Misfit) : StateM Session Unit :=
  Session.report (.malformedGeometry label m.message)

/-- The given value after a report of what was wrong. -/
def instead {α : Type} (label : String) (m : Misfit) (value : α) : StateM Session α := do
  misfit label m
  return value

/-! ### Sizes from MJCF attributes -/

def planeSize (label : String) : List Float32 → StateM Session Vec3
  | [] => instead label .planeWithoutSize standardPlane
  | [side] => pure ⟨side, side, 0⟩
  | width :: depth :: _ => pure ⟨width, depth, 0⟩

def sphereRadius (label : String) : List Float32 → StateM Session Float32
  | [] => instead label .sphereWithoutRadius standardRadius
  | [radius] => pure radius
  | radius :: rest => instead label (.sphereSizes (rest.length + 1)) radius

/-- Full extents from half-extents. -/
def boxSize (label : String) : List Float32 → StateM Session Vec3
  | [x, y, z] => pure ⟨2 * x, 2 * y, 2 * z⟩
  | sizes => instead label (.boxHalves sizes.length) standardBox

def ellipsoidSize (label : String) : List Float32 → StateM Session Vec3
  | a :: b :: c :: _ => pure ⟨a, b, c⟩
  | sizes => instead label (.ellipsoidRadii sizes.length) standardEllipsoid

/-- Radius and full length from radius and half-length. -/
def tubeSize (kind : ShapeKind) (label : String) : List Float32 → StateM Session Vec3
  | radius :: half :: _ => pure ⟨radius, 2 * half, 0⟩
  | sizes => instead label (.tubeSizes kind sizes.length) standardTube

/-- A cylinder or capsule from one end to another, its z axis along the segment. -/
def segment (kind : ShapeKind) (label : String) (ends sizes : List Float32) :
    StateM Session Shape :=
  match ends with
  | a :: b :: c :: d :: e :: f :: _ => do
    let first : Vec3 := ⟨a, b, c⟩
    let last : Vec3 := ⟨d, e, f⟩
    let along := last - first
    let length := along.norm
    let radius ← match sizes with
      | radius :: _ => pure radius
      | [] => instead label .segmentWithoutRadius (0.25 * length)
    let frame : Pose := ⟨(first + last).scale 0.5, .shortestArc .unitZ along⟩
    return { (Shape.ofSize kind ⟨radius, length, 0⟩).placed frame with fromSegment := true }
  | _ => instead label (.segmentValues ends.length) (.ofSize kind standardTube)

/-- The shape of a geom of one kind, every attribute read in its scope. Only a shape between two ends has
a frame of its own; the frame of any other is left to the caller. -/
def ofKind (surroundings : Surroundings) (scope : Scope) (label : String) (kind : ShapeKind) :
    StateM Session Shape :=
  let l := scope.lookup
  let sizes := (l.floatArray? "size").getD []
  match kind with
  | .plane => .ofSize kind <$> planeSize label sizes
  | .sphere => (fun radius => .ofSize kind ⟨radius, 0, 0⟩) <$> sphereRadius label sizes
  | .box => .ofSize kind <$> boxSize label sizes
  | .ellipsoid => .ofSize kind <$> ellipsoidSize label sizes
  | .cylinder | .capsule =>
    match l.floatArray? "fromto" with
    | some ends => segment kind label ends sizes
    | none => .ofSize kind <$> tubeSize kind label sizes
  | .mesh =>
    match l.string? "mesh" with
    | some reference => do
      let mesh ← Session.mesh surroundings reference
      return { Shape.ofSize kind mesh.scale with mesh := some mesh }
    | none => instead label .meshWithoutReference (.ofSize kind (.splat 1))
  | .heightfield => do
    let reference := (l.string? "hfield").getD ""
    match (← get).assets.heightfields.find? reference with
    | some grid =>
      let size : Vec3 := ⟨grid.extent.radiusX, grid.extent.radiusY, grid.extent.elevation⟩
      return { Shape.ofSize kind size with heightfield := some grid }
    | none =>
      Session.report (.unresolvedReference label "hfield" reference)
      return .ofSize kind (.splat 1)

/-- The kind of shape of a keyword; one that is not known stands for a sphere. -/
def kindOf (label keyword : String) : StateM Session ShapeKind :=
  match ShapeKind.ofKeyword? keyword with
  | some kind => pure kind
  | none => instead label (.unknownType keyword) .sphere

def ofGeom (surroundings : Surroundings) (scope : Scope) : StateM Session Shape := do
  let label := scope.element.name?.getD scope.element.kind
  ofKind surroundings scope label (← kindOf label ((scope.lookup.string? "type").getD "sphere"))

/-! ### Sizes from URDF elements -/

def tube (label : String) (kind : ShapeKind) (e : Element) : StateM Session Shape :=
  match e.own.float? "radius", e.own.float? "length" with
  | some radius, some length => pure (.ofSize kind ⟨radius, length, 0⟩)
  | _, _ => instead label (.tubeWithoutSizes kind) (.ofSize kind standardTube)

/-- The shape of an element that is a solid. Sizes are full extents and lengths. -/
def ofSolid? (surroundings : Surroundings) (label : String) (e : Element) :
    StateM Session (Option Shape) :=
  match e.kind with
  | "box" =>
    match e.own.vec3? "size" with
    | some size => pure (some (.ofSize .box size))
    | none => instead label .boxWithoutExtents (some (.ofSize .box standardBox))
  | "sphere" =>
    match e.own.float? "radius" with
    | some radius => pure (some (.ofSize .sphere ⟨radius, 0, 0⟩))
    | none => instead label .sphereWithoutRadius (some (.ofSize .sphere ⟨standardRadius, 0, 0⟩))
  | "cylinder" => some <$> tube label .cylinder e
  | "capsule" => some <$> tube label .capsule e
  | "mesh" =>
    match e.own.string? "filename" with
    | none => instead label .meshWithoutFile none
    | some reference => do
      let mesh ← Session.mesh surroundings reference
      let scale := (e.own.vec3? "scale").getD (.splat 1)
      return some { Shape.ofSize .mesh scale with mesh := some mesh }
  | _ => pure none

/-- The shape of a geometry element: that of the first element in it, if that is a solid. -/
def ofGeometry? (surroundings : Surroundings) (label : String) (geometry : Element) :
    StateM Session (Option Shape) :=
  match geometry.children with
  | [] => pure none
  | solid :: _ => ofSolid? surroundings label solid

/-! ### Sizes from rlsim parameters -/

/-- The shape of a keyword and three parameters in the convention where z points up. A box takes full
extents, a tube a diameter on x and a height on z, a sphere three diameters of which the first
counts. -/
def ofParameters (keyword : String) (p : Vec3) (label : String) : StateM Session Shape :=
  match keyword with
  | "box" => pure (.ofSize .box p)
  | "capsule" => pure (.ofSize .capsule ⟨0.5 * p.x, p.z, 0⟩)
  | "cylinder" => pure (.ofSize .cylinder ⟨0.5 * p.x, p.z, 0⟩)
  | "sphere" => pure (.ofSize .sphere ⟨0.5 * p.x, 0.5 * p.y, 0.5 * p.z⟩)
  | other => instead label (.unknownSolid other) (.ofSize .box p)

end Geometry

end Articulation
