import Articulation.Geometry
import Articulation.Load.Error
/-! Compiling URDF, where links and joints are declared side by side. Links become bodies, joints
become connections, and the tree is assembled from both. -/
namespace Articulation.Urdf

/-! ### Materials -/

def color? (e : Element) : Option Rgba :=
  ((e.child? "color").bind fun color => color.own.vector? 4 "rgba").bind Rgba.ofList?

/-- Registers a material that has a name and a color. The result is the registered entry of the name,
the first declaration if there are several. -/
def declareMaterial (e : Element) : StateM Session (Option Material) :=
  match e.name? with
  | none => pure none
  | some name => do
    if let some color := color? e then
      modify fun s => { s with assets := s.assets.addMaterial (.ofColor name color) }
    return (← get).assets.materials.find? name

/-- The drawable in the material of a visual: that of its name, else its color alone. -/
def paint (d : Drawable) (e : Element) : StateM Session Drawable :=
  let recolored := match color? e with
    | some color => { d with rgba := color }
    | none => d
  match e.name? with
  | none => pure recolored
  | some reference => do
    match ← declareMaterial e with
    | some material => return d.painted material
    | none =>
      if (color? e).isNone then
        Session.report (.unresolvedReference d.name "material" reference)
      return recolored

/-! ### Links -/

def shape (surroundings : Surroundings) (label : String) (e : Element) :
    StateM Session (Option Shape) := do
  let found ← match e.child? "geometry" with
    | none => pure none
    | some geometry => Geometry.ofGeometry? surroundings label geometry
  match found with
  | some shape => return some (shape.placed (.ofOrigin (e.child? "origin")))
  | none => Geometry.instead label (.noGeometry e.kind) none

/-- The name of a part of a link, else one from its position among its like. -/
def label (link part : String) (e : Element) (i : Nat) : String := e.name?.getD s!"{link}_{part}_{i}"

def drawable (surroundings : Surroundings) (link : String) (e : Element) (i : Nat) :
    StateM Session (Option Drawable) := do
  let label := label link "visual" e i
  match ← shape surroundings label e with
  | none => return none
  | some shape =>
    let plain := Drawable.ofShape label shape
    match e.child? "material" with
    | none => return some plain
    | some material => some <$> paint plain material

def collider (surroundings : Surroundings) (link : String) (e : Element) (i : Nat) :
    StateM Session (Option Collider) := do
  let label := label link "collision" e i
  return (← shape surroundings label e).map (.ofShape label)

def inertia (e : Element) : Inertia :=
  let entry (name : String) := (e.own.float? name).getD 0
  ⟨entry "ixx", entry "ixy", entry "ixz", entry "iyy", entry "iyz", entry "izz"⟩

def inertial (e : Element) : Inertial where
  pose := .ofOrigin (e.child? "origin")
  mass := ((e.child? "mass").bind fun mass => mass.own.float? "value").getD 0
  inertia := ((e.child? "inertia").map inertia).getD .zero

def link (surroundings : Surroundings) (e : Element) : StateM Session Body := do
  let name ← Session.nameOr e.name? "link"
  let drawables ← (e.childrenOf "visual").zipIdx.mapM fun (visual, i) =>
    drawable surroundings name visual i
  let colliders ← (e.childrenOf "collision").zipIdx.mapM fun (collision, i) =>
    collider surroundings name collision i
  return .node { Link.ofName name with
    inertial := (e.child? "inertial").map inertial
    drawables := drawables.filterMap id
    colliders := colliders.filterMap id } []

/-! ### Joints -/

/-- Limits from the bounds written; bounds that do not differ mean none. -/
def limits (e : Option Element) : JointLimits :=
  match e with
  | none => .unlimited
  | some e =>
    let lower := (e.own.float? "lower").getD 0
    let upper := (e.own.float? "upper").getD 0
    if epsilon < (lower - upper).abs then ⟨lower, upper⟩ else .unlimited

/-- Only these two joint types read limits. -/
def isBounded (keyword : String) : Bool := keyword == "revolute" || keyword == "prismatic"

def joint (e : Element) (name : String) : Joint :=
  let keyword := (e.own.string? "type").getD "fixed"
  { Joint.ofType name ((JointType.ofKeyword? keyword).getD .fixed) with
    axis := ((e.child? "axis").bind fun axis => axis.own.vec3? "xyz").getD .unitX
    limits := if isBounded keyword then limits (e.child? "limit") else .unlimited
    damping := ((e.child? "dynamics").bind fun d => d.own.float? "damping").getD 0 }

def linkAt (e : Element) (joint jointEnd : String) : Except LoadError String :=
  match (e.child? jointEnd).bind fun child => child.own.string? "link" with
  | some link => .ok link
  | none => .error (.missingElement jointEnd (.joint joint))

def connection (e : Element) (name : String) : Except LoadError Connection := do
  let parent ← linkAt e name "parent"
  let child ← linkAt e name "child"
  return ⟨joint e name, parent, child, .ofOrigin (e.child? "origin")⟩

/-! ### Documents -/

def torqueActuator (joint : String) : Actuator :=
  { Actuator.ofKind joint .torque (some joint) with kp := 0, kv := 0, gear := [2] }

def parts (surroundings : Surroundings) (root : Element) :
    StateM Session (List Body × List (Element × String)) := do
  Session.declare root.declaredNames
  (root.childrenOf "material").forM fun e => discard (declareMaterial e)
  let bodies ← (root.childrenOf "link").mapM (link surroundings)
  let joints ← (root.childrenOf "joint").mapM fun e => do
    return (e, ← Session.nameOr e.name? "joint")
  return (bodies, joints)

def compile (surroundings : Surroundings) (kind : SchemaKind) (root : Element) :
    Except LoadError Robot := do
  if kind ≠ .urdf then throw (.missingElement "robot" (.document kind))
  let name := surroundings.modelName (root.own.string? "name") "robot"
  let ((bodies, joints), session) := (parts surroundings root).run .start
  let connections ← joints.mapM fun (e, name) => connection e name
  let (tree, exclusions) := Assembly.assembleInto session.exclusions bodies connections
  let tree ← tree.mapError .assembly
  let linkage := Linkage.ofBody tree
  let actuators :=
    if surroundings.settings.urdf.defaultActuators then
      linkage.actuatedJoints.map fun joint => torqueActuator joint.name
    else []
  return { session with exclusions }.finish name linkage actuators

end Articulation.Urdf
