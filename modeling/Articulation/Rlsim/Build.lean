import Articulation.Geometry
import Articulation.Load.Error
import Articulation.Rlsim.Document
/-! Compiling rlsim documents. Every joint becomes a body that carries it, named by its body definition
or, where there is none, by the joint; the tree is assembled from the parent indices. -/
namespace Articulation.Rlsim

/-- The axis that points up: that of the settings, else that of the document, which is y where it says
nothing and z where it says something unknown. -/
def upAxis (settings : RlsimSettings) (document : Document) : UpAxis :=
  settings.worldUp.getD (match document.worldUp with
    | none => .y
    | some keyword => (UpAxis.ofKeyword? keyword).getD .z)

def Attachment.pose (a : Attachment) (up : UpAxis) : Pose :=
  ⟨up.toZUp a.position, .ofEuler (up.toZUp a.angles)⟩

/-- A joint index below `count`, none for a joint without a parent. -/
def index? (raw : Int) (count : Nat) (holder : IndexHolder) : Except LoadError (Option (Fin count)) :=
  if raw = noIndex then .ok none
  else if h : 0 ≤ raw ∧ raw < count then .ok (some ⟨raw.toNat, by omega⟩)
  else .error (.jointIndex holder raw count)

def bodyName (document : Document) (i : Nat) : String :=
  match document.bodies[i]? with
  | some body => body.name
  | none => ((document.joints[i]?).map (·.name)).getD undefinedName

/-- A collider whose density gives the shape the mass, where that is possible. -/
def collider (mass : Float32) (name : String) (shape : Shape) : Collider :=
  let plain := Collider.ofShape name shape
  match shape.volume? with
  | some volume => if 0 < mass && 0 < volume then { plain with density := mass / volume } else plain
  | none => plain

def colliders (up : UpAxis) : Option BodyDefinition → StateM Session (List Collider)
  | none => pure []
  | some d => do
    let shape ← Geometry.ofParameters d.shape (up.toZUp d.parameters) d.name
    return [collider d.mass d.name (shape.placed (d.frame.pose up))]

def joint (d : JointDefinition) : Joint :=
  { Joint.ofType d.name ((JointType.ofKeyword? d.type).getD .fixed) with
    axis := .unitX
    limits := if epsilon < (d.upper - d.lower).abs then ⟨d.lower, d.upper⟩ else .unlimited }

def drawable (up : UpAxis) (d : DrawableDefinition) : StateM Session Drawable := do
  let shape ← Geometry.ofParameters d.shape (up.toZUp d.parameters) d.name
  return { Drawable.ofShape d.name (shape.placed (d.frame.pose up)) with
    rgba := d.color
    specular := ⟨d.color.r, d.color.g, d.color.b⟩ }

/-- The links of all joints in order, before any joint or drawable is on them. -/
def links (document : Document) (up : UpAxis) : StateM Session (List Link) :=
  document.joints.zipIdx.mapM fun (d, i) => do
    return { Link.ofName (bodyName document i) with
      pose := d.frame.pose up
      colliders := ← colliders up document.bodies[i]? }

def parts (document : Document) (up : UpAxis) : StateM Session (List Link × List Drawable) := do
  let links ← links document up
  return (links, ← document.drawables.mapM (drawable up))

def parents (document : Document) :
    Except LoadError (List (Option (Fin document.joints.length))) :=
  document.joints.mapM fun d => index? d.parent document.joints.length (.joint d.name)

def drawableJoint (d : DrawableDefinition) (count : Nat) : Except LoadError (Fin count) := do
  match ← index? d.joint count (.shape d.name) with
  | some i => return i
  | none => throw (.jointIndex (.looseShape d.name) d.joint count)

def drawableJoints (document : Document) : Except LoadError (List (Fin document.joints.length)) :=
  document.drawables.mapM fun d => drawableJoint d document.joints.length

def connections (document : Document) (up : UpAxis)
    (parents : List (Option (Fin document.joints.length))) : List Connection :=
  (document.joints.zipIdx.zip parents).filterMap fun ((d, i), parent) =>
    parent.map fun parent =>
      ⟨joint d, bodyName document parent, bodyName document i, d.frame.pose up⟩

/-- The bodies with the joints that have no parent and with the drawables. -/
def bodies (document : Document) (links : List Link)
    (parents : List (Option (Fin document.joints.length)))
    (drawables : List (Drawable × Fin document.joints.length)) : List Body :=
  ((document.joints.zip links).zip parents).zipIdx.map fun (((d, link), parent), i) =>
    .node { link with
      joints := if parent.isNone then [joint d] else []
      drawables := (drawables.filter fun drawable => drawable.2.val == i).map (·.1) } []

/-- The torque limit of a joint by name; of several joints of one name the last one counts. -/
def torqueLimit (document : Document) (name : String) : Float32 :=
  ((document.joints.reverse.find? fun d => d.name == name).map (·.torqueLimit)).getD 0

def fallbackGear : Float32 := 10

def controller (document : Document) (joint : String) : Actuator :=
  let limit := torqueLimit document joint
  { Actuator.ofKind joint .pd (some joint) with
    kp := 50, kv := 1, gear := [if 0 < limit then limit else fallbackGear] }

def actuators (settings : RlsimSettings) (document : Document) (linkage : Linkage) : List Actuator :=
  if settings.defaultActuators then
    linkage.actuatedJoints.map fun joint => controller document joint.name
  else []

def build (surroundings : Surroundings) (document : Document) : Except LoadError Robot := do
  let up := upAxis surroundings.settings.rlsim document
  let count := document.joints.length
  if let some extra := document.bodies[count]? then
    throw (.jointIndex (.body extra.name) count count)
  let parents ← parents document
  let drawableJoints ← drawableJoints document
  let ((links, drawables), session) := (parts document up).run .start
  let bodies := bodies document links parents (drawables.zip drawableJoints)
  let (tree, exclusions) :=
    Assembly.assembleInto session.exclusions bodies (connections document up parents)
  let tree ← tree.mapError .assembly
  let linkage := Linkage.ofBody tree
  return { session with exclusions }.finish (surroundings.modelName none "rlsim") linkage
    (actuators surroundings.settings.rlsim document linkage)

def compile (surroundings : Surroundings) (text : String) : Except LoadError Robot :=
  match Document.read? text with
  | some document => build surroundings document
  | none => .error .json

end Articulation.Rlsim
