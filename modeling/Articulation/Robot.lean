import Articulation.Body.Linkage
import Articulation.Diagnostic
/-! The compiled model: a finished tree of bodies with its assets, actuators, contact exclusions and
the diagnostics of its compilation. -/
namespace Articulation

inductive ActuatorKind where
  | torque
  | position
  | velocity
  | pd
deriving DecidableEq, Repr

namespace ActuatorKind

def ofKeyword? : String → Option ActuatorKind
  | "motor" | "general" => some torque
  | "position" => some position
  | "velocity" => some velocity
  | "pd" => some pd
  | _ => none

def name : ActuatorKind → String
  | torque => "torque"
  | position => "position"
  | velocity => "velocity"
  | pd => "pd"

end ActuatorKind

structure Actuator where
  name : String
  kind : ActuatorKind
  /-- The joint it drives, unless its reference was not resolved. -/
  joint : Option String
  control : Float32 × Float32
  kp : Float32
  kv : Float32
  gear : List Float32
deriving DecidableEq, Repr

/-- An actuator with unit gains and control range that acts on the first coordinate. -/
def Actuator.ofKind (name : String) (kind : ActuatorKind) (joint : Option String) : Actuator :=
  ⟨name, kind, joint, (-1, 1), 1, 1, [1, 0, 0, 0, 0, 0]⟩

structure Robot where
  name : String
  linkage : Linkage
  meshes : List Mesh
  materials : List Material
  heightfields : List Heightfield
  actuators : List Actuator
  exclusions : List (String × String)
  diagnostics : List Diagnostic

namespace Robot

def dof (r : Robot) : Nat := r.linkage.dof

def bodyNames (r : Robot) : List String := r.linkage.bodies.map Body.name

def jointNames (r : Robot) : List String := r.linkage.joints.map (·.2.name)

def actuator? (r : Robot) (name : String) : Option Actuator := r.actuators.find? (·.name == name)

def mesh? (r : Robot) (id : String) : Option Mesh := r.meshes.find? (·.id == id)

def material? (r : Robot) (name : String) : Option Material := r.materials.find? (·.name == name)

/-- Whether contacts between two bodies are ignored; the order of the two does not matter. -/
def isExcluded (r : Robot) (a b : String) : Bool :=
  r.exclusions.any fun pair => pair == (a, b) || pair == (b, a)

end Robot

end Articulation
