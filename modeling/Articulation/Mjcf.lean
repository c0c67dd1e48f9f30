import Articulation.Geometry
import Articulation.Load.Error
/-! Compiling MJCF, where bodies nest in the world body. Every attribute is read through the default
values, and the nearest class that a body declares for its children is handed down to them. -/
namespace Articulation.Mjcf

structure Rules where
  defaults : Defaults
  angle : AngleUnit
  coordinate : CoordinateMode
  jointAxis : Vec3

/-- A keyword of the compiler element, else the value that is set. -/
def setting {α : Type} (compiler : Option Element) (name : String) (ofKeyword? : String → Option α)
    (fallback : α) : α :=
  (((compiler.bind fun e => e.own.string? name).bind ofKeyword?)).getD fallback

def Rules.ofDocument (settings : MjcfSettings) (root : Element) : Rules where
  defaults := .ofDocument root
  angle := setting (root.child? "compiler") "angle" AngleUnit.ofKeyword? settings.angle
  coordinate :=
    setting (root.child? "compiler") "coordinate" CoordinateMode.ofKeyword? settings.coordinate
  jointAxis := settings.jointAxis

def Rules.scope (r : Rules) (inherited : Option String) (e : Element) : Scope :=
  .of r.defaults inherited e

/-! ### Assets -/

def meshAsset (r : Rules) (surroundings : Surroundings) (e : Element) : StateM Session Unit := do
  let l := (r.scope none e).lookup
  match l.string? "file" with
  | none => Geometry.misfit (e.name?.getD "mesh") .meshAssetWithoutFile
  | some file =>
    let mesh : Mesh :=
      ⟨e.name?.getD ((Path.fileStem? file).getD file),
        surroundings.resolve file surroundings.meshDirectory, (l.vec3? "scale").getD (.splat 1)⟩
    modify fun s => { s with assets := s.assets.addMesh mesh }

/-- What a shininess of one stands for. -/
def shininessScale : Float32 := 128

def material (l : Lookup) (name : String) : Material where
  name
  diffuse := ((l.vector? 4 "rgba").bind Rgba.ofList?).getD .standard
  specular := match l.floatArray? "specular" with
    | some [value] => .splat value
    | some [r, g, b] => ⟨r, g, b⟩
    | _ => standardSpecular
  shininess := ((l.float? "shininess").map (· * shininessScale)).getD standardShininess

def materialAsset (r : Rules) (e : Element) : StateM Session Unit :=
  match e.name? with
  | none => pure ()
  | some name =>
    modify fun s => { s with assets := s.assets.addMaterial (material (r.scope none e).lookup name) }

/-- A number of grid points; below zero it counts as zero. -/
def gridCount (e : Element) (name : String) : Nat :=
  ((e.own.int? name).map fun n => n.toInt.toNat).getD 0

def heightfieldAsset (surroundings : Surroundings) (e : Element) : StateM Session Unit :=
  match e.name? with
  | none => pure ()
  | some id => do
    let extent ← match (e.own.vector? 4 "size").bind GridExtent.ofList? with
      | some extent => pure extent
      | none => Geometry.instead id .gridSizes ⟨1, 1, 1, 0.1⟩
    let heightfield : Heightfield :=
      ⟨id, (e.own.string? "file").map fun file => surroundings.resolve file none,
        gridCount e "nrow", gridCount e "ncol", extent⟩
    modify fun s => { s with assets := s.assets.addHeightfield heightfield }

def asset (r : Rules) (surroundings : Surroundings) (e : Element) : StateM Session Unit :=
  match e.kind with
  | "mesh" => meshAsset r surroundings e
  | "material" => materialAsset r e
  | "hfield" => heightfieldAsset surroundings e
  | _ => pure ()

def assets (r : Rules) (surroundings : Surroundings) (root : Element) : StateM Session Unit :=
  ((root.childrenOf "asset").flatMap Rose.children).forM (asset r surroundings)

/-! ### The parts of a body -/

/-- A collision filter of 32 signed bits. A value out of range counts as absent. -/
def filterBits (l : Lookup) (name : String) : Int :=
  match l.int? name with
  | some n =>
    if Int32.minValue.toInt ≤ n.toInt ∧ n.toInt ≤ Int32.maxValue.toInt then n.toInt else 1
  | none => 1

/-- Friction with the coefficients given, which may be fewer than three. -/
def friction (values : List Float32) : Friction :=
  let standard := Friction.standard
  ⟨values[0]?.getD standard.sliding, values[1]?.getD standard.torsional,
    values[2]?.getD standard.rolling⟩

/-- The density of a shape: its mass, when that is given, over its volume, when it has one. -/
def density (l : Lookup) (shape : Shape) : Float32 :=
  match l.float? "mass", shape.volume? with
  | some mass, some volume =>
    if 0 < volume then mass / volume else (l.float? "density").getD standardDensity
  | _, _ => (l.float? "density").getD standardDensity

def collider (l : Lookup) (name : String) (shape : Shape) : Collider where
  name
  shape
  group := filterBits l "contype"
  mask := filterBits l "conaffinity"
  friction := friction ((l.floatArray? "friction").getD [])
  density := density l shape

/-- The drawable in a color of its own, whose first three components are its specular response. -/
def colored (d : Drawable) (color : Rgba) : Drawable :=
  { d with rgba := color, specular := ⟨color.r, color.g, color.b⟩ }

/-- The drawable in the element's own color, else in that of its material, else in the default
color. -/
def paint (scope : Scope) (material : Option Material) (d : Drawable) : Drawable :=
  if let some color := (scope.element.own.vector? 4 "rgba").bind Rgba.ofList? then
    { colored d color with material := material.map (·.name) }
  else if let some material := material then d.painted material
  else if let some color := (scope.lookup.vector? 4 "rgba").bind Rgba.ofList? then colored d color
  else d

def materialOf (l : Lookup) (referrer : String) : StateM Session (Option Material) := do
  match l.string? "material" with
  | none => return none
  | some reference =>
    let found := (← get).assets.materials.find? reference
    if found.isNone then Session.report (.unresolvedReference referrer "material" reference)
    return found

/-- The two sides of a geom: what collides and what is seen. -/
def geom (r : Rules) (surroundings : Surroundings) (inherited : Option String) (e : Element) :
    StateM Session (Collider × Drawable) := do
  let scope := r.scope inherited e
  let l := scope.lookup
  let shape ← Geometry.ofGeom surroundings scope
  let shape := if shape.fromSegment then shape else shape.placed (l.pose r.angle)
  let name ← Session.nameOr e.name? "geom"
  let material ← materialOf l name
  return (collider l name shape, paint scope material (.ofShape name shape))

/-- The limits of a joint: its range if it is limited, half a turn if it is limited without one. A
joint that does not say is limited exactly when it has a range. -/
def limits (l : Lookup) (convert : Float32 → Float32) : JointLimits :=
  let range := l.vector? 2 "range"
  let limited := match l.string? "limited" with
    | some "true" => true
    | some "false" => false
    | _ => range.isSome
  if !limited then .unlimited
  else match range with
    | some [lower, upper] => ⟨convert lower, convert upper⟩
    | _ => .halfTurn

def joint (r : Rules) (inherited : Option String) (e : Element) : StateM Session Joint := do
  let l := (r.scope inherited e).lookup
  let name ← Session.nameOr e.name? "joint"
  let type := (JointType.ofKeyword? ((l.string? "type").getD "hinge")).getD .revolute
  let convert (value : Float32) : Float32 :=
    match type with
    | .revolute | .spherical => r.angle.toRadians value
    | _ => value
  return { Joint.ofType name type with
    pose := l.pose r.angle
    axis := (l.vec3? "axis").getD r.jointAxis
    limits := limits l convert
    stiffness := (l.float? "stiffness").getD 0
    armature := (l.float? "armature").getD 0
    damping := (l.float? "damping").getD 0
    reference := convert ((l.float? "ref").getD 0) }

def freeJoint (e : Element) : StateM Session Joint := do
  return .ofType (← Session.nameOr e.name? "joint") .free

def inertial (r : Rules) (body : String) (e : Element) : StateM Session Inertial := do
  let l := (r.scope none e).lookup
  let inertia ← match l.vec3? "diaginertia" with
    | some diagonal => pure (Inertia.ofDiagonal diagonal)
    | none =>
      match l.vector? 6 "fullinertia" with
      | some [xx, yy, zz, xy, xz, yz] => pure ⟨xx, xy, xz, yy, yz, zz⟩
      | _ => Geometry.instead body .noInertia Inertia.zero
  return ⟨l.pose r.angle, (l.float? "mass").getD 1, inertia⟩

/-! ### Bodies -/

mutual
/-- A body and all below it. Its pose is the one written, whatever the coordinate mode. -/
def body (r : Rules) (surroundings : Surroundings) (parent inherited : Option String) :
    Element → StateM Session Body
  | .node tag children => do
    let e : Element := .node tag children
    let name ← Session.nameOr e.name? "body"
    if let some parent := parent then Session.exclude parent name
    let link := { Link.ofName name with pose := (r.scope inherited e).lookup.pose r.angle }
    members r surroundings ((e.own.string? "childclass").or inherited) (.node link []) children

def members (r : Rules) (surroundings : Surroundings) (inherited : Option String) (b : Body) :
    List Element → StateM Session Body
  | [] => pure b
  | e :: rest => do
    let link := b.value
    let b ← match e.kind with
      | "geom" => do
        let (collider, drawable) ← geom r surroundings inherited e
        pure (Rose.node { link with
          colliders := link.colliders ++ [collider]
          drawables := link.drawables ++ [drawable] } b.children)
      | "joint" => do
        let joint ← joint r inherited e
        pure (Rose.node { link with joints := link.joints ++ [joint] } b.children)
      | "freejoint" => do
        let joint ← freeJoint e
        pure (Rose.node { link with joints := link.joints ++ [joint] } b.children)
      | "inertial" => do
        let inertial ← inertial r link.name e
        pure (Rose.node { link with inertial := some inertial } b.children)
      | "body" => do
        let child ← body r surroundings (some link.name) inherited e
        pure (Rose.node link (b.children ++ [child]))
      | _ => pure b
    members r surroundings inherited b rest
end

/-- What is on a link, its frames made relative to the link's world pose. -/
def toRelative (parentWorld : Pose) (link : Link) : Link :=
  let world := link.pose
  { link with
    pose := parentWorld.relative world
    joints := link.joints.map fun joint => { joint with pose := world.relative joint.pose }
    colliders := link.colliders.map fun c =>
      { c with shape := c.shape.placed (world.relative c.shape.pose) }
    drawables := link.drawables.map fun d =>
      { d with shape := d.shape.placed (world.relative d.shape.pose) }
    inertial := link.inertial.map fun i => { i with pose := world.relative i.pose } }

mutual
/-- A body whose poses are all written in the world, made relative: each to its body, and that to the
parent's world pose. -/
def localize (parentWorld : Pose) : Body → Body
  | .node link children => .node (toRelative parentWorld link) (localizeAll link.pose children)

def localizeAll (parentWorld : Pose) : List Body → List Body
  | [] => []
  | b :: rest => localize parentWorld b :: localizeAll parentWorld rest
end

def resolved (mode : CoordinateMode) (b : Body) : Body :=
  match mode with
  | .relative => b
  | .world => localize .identity b

/-! ### What refers to bodies and joints -/

/-- The joint that an actuator drives, if the tree has it. -/
def target (linkage : Linkage) (referrer : String) (reference : Option String) :
    StateM Session (Option String) := do
  match reference.filter fun name => (linkage.joint? name).isSome with
  | some name => return some name
  | none =>
    Session.report (.unresolvedReference referrer "joint" (reference.getD ""))
    return none

def actuator (r : Rules) (linkage : Linkage) (kind : ActuatorKind) (e : Element) :
    StateM Session Actuator := do
  let l := (r.scope none e).lookup
  let reference := l.string? "joint"
  let name ← Session.nameOr (e.name?.or reference) "actuator"
  let joint ← target linkage name reference
  let plain := Actuator.ofKind name kind joint
  return { plain with
    control :=
      if l.string? "ctrllimited" = some "false" then plain.control
      else match l.vector? 2 "ctrlrange" with
        | some [least, greatest] => (least, greatest)
        | _ => plain.control
    kp := (l.float? "kp").getD plain.kp
    kv := (l.float? "kv").getD plain.kv
    gear := (l.floatArray? "gear").getD plain.gear }

def actuators (r : Rules) (linkage : Linkage) (root : Element) : StateM Session (List Actuator) :=
  let elements : List Element := (root.childrenOf "actuator").flatMap Rose.children
  (elements.filterMap fun e => (ActuatorKind.ofKeyword? e.kind).map fun kind => (kind, e)).mapM
    fun (kind, e) => actuator r linkage kind e

def checkBody (linkage : Linkage) (label name : String) : StateM Session Bool := do
  if (linkage.find? name).isSome then return true
  Session.report (.unresolvedReference label "body" name)
  return false

/-- Excludes contacts between two bodies, if the tree has both. -/
def contactExclusion (linkage : Linkage) (e : Element) : StateM Session Unit := do
  match e.own.string? "body1", e.own.string? "body2" with
  | some first, some second =>
    let label := e.name?.getD "exclude"
    let hasFirst ← checkBody linkage label first
    let hasSecond ← checkBody linkage label second
    if hasFirst && hasSecond then Session.exclude first second
  | _, _ => pure ()

def contactExclusions (linkage : Linkage) (root : Element) : StateM Session Unit :=
  ((root.childrenOf "contact").flatMap fun e => e.childrenOf "exclude").forM
    (contactExclusion linkage)

/-! ### Documents -/

/-- The element of the root body: the first body in the first world body. -/
def rootBody (root : Element) (name : String) : Except LoadError Element :=
  match root.child? "worldbody" with
  | none => .error (.missingElement "worldbody" (.model name))
  | some world =>
    match world.child? "body" with
    | none => .error (.missingElement "body" (.worldBody name))
    | some e => .ok e

def model (surroundings : Surroundings) (root rootBody : Element) (name : String) : Robot :=
  let surroundings := { surroundings with
    meshDirectory := ((root.child? "compiler").bind fun e => e.own.string? "meshdir").or
      surroundings.settings.mjcf.meshDirectory }
  let rules := Rules.ofDocument surroundings.settings.mjcf root
  let compile : StateM Session (Linkage × List Actuator) := do
    Session.declare root.declaredNames
    assets rules surroundings root
    let written ← body rules surroundings none none rootBody
    let linkage := Linkage.ofBody (resolved rules.coordinate written)
    let actuators ← actuators rules linkage root
    contactExclusions linkage root
    return (linkage, actuators)
  let ((linkage, actuators), session) := compile.run .start
  session.finish name linkage actuators

/-- Compiles an MJCF document. Only the first body in the world body is compiled. -/
def compile (surroundings : Surroundings) (kind : SchemaKind) (root : Element) :
    Except LoadError Robot := do
  if kind ≠ .mjcf then throw (.missingElement "mujoco" (.document kind))
  let name := surroundings.modelName (root.own.string? "model") "mjcf"
  let rootBody ← rootBody root name
  return model surroundings root rootBody name

end Articulation.Mjcf
