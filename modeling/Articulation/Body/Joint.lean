import Articulation.Pose.Basic
/-! Joints: the kinds of motion they allow, their position limits and their frames. -/
namespace Articulation

inductive JointType where
  | free
  | fixed
  | revolute
  | prismatic
  | spherical
  | planar
deriving DecidableEq, Repr

namespace JointType

def ofKeyword? : String → Option JointType
  | "free" | "floating" | "none" => some free
  | "hinge" | "revolute" | "continuous" => some revolute
  | "slide" | "prismatic" => some prismatic
  | "ball" | "spherical" => some spherical
  | "fixed" | "world" => some fixed
  | "planar" => some planar
  | _ => none

def name : JointType → String
  | free => "free"
  | fixed => "fixed"
  | revolute => "revolute"
  | prismatic => "prismatic"
  | spherical => "spherical"
  | planar => "planar"

def dof : JointType → Nat
  | free => 6
  | fixed => 0
  | revolute | prismatic => 1
  | spherical | planar => 3

/-- Whether a joint of this type gets an actuator by default. -/
def isActuated : JointType → Bool
  | revolute | prismatic | spherical => true
  | free | fixed | planar => false

end JointType

/-- Position limits; a lower bound above the upper one means no limits. -/
structure JointLimits where
  lower : Float32
  upper : Float32
deriving DecidableEq, Repr

namespace JointLimits

def unlimited : JointLimits := ⟨1, -1⟩

def halfTurn : JointLimits := ⟨-pi, pi⟩

def isLimited (limits : JointLimits) : Bool := limits.lower ≤ limits.upper

end JointLimits

structure Joint where
  name : String
  type : JointType
  axis : Vec3
  limits : JointLimits
  stiffness : Float32
  armature : Float32
  damping : Float32
  reference : Float32
  /-- The joint's frame in its body. -/
  pose : Pose
  world : Pose
  /-- The id of the body, known once the tree is finished. -/
  owner : Option Nat
deriving DecidableEq, Repr

def Joint.ofType (name : String) (type : JointType) : Joint where
  name
  type
  axis := .unitZ
  limits := .unlimited
  stiffness := 0
  armature := 0
  damping := 0
  reference := 0
  pose := .identity
  world := .identity
  owner := none

end Articulation
