import Articulation.Body.Joint
import Articulation.Rose.Basic
import Articulation.Shape
/-! Bodies: the geometry, mass and joints of one rigid link, and the tree that bodies form. -/
namespace Articulation

structure Friction where
  sliding : Float32
  torsional : Float32
  rolling : Float32
deriving DecidableEq, Repr

def Friction.standard : Friction := ⟨1, 0.005, 0.0001⟩

def Friction.toList (f : Friction) : List Float32 := [f.sliding, f.torsional, f.rolling]

def standardDensity : Float32 := 1000

structure Collider where
  name : String
  shape : Shape
  group : Int
  mask : Int
  friction : Friction
  density : Float32
deriving DecidableEq, Repr

/-- A collider with the standard contact parameters. -/
def Collider.ofShape (name : String) (shape : Shape) : Collider :=
  ⟨name, shape, 1, 1, .standard, standardDensity⟩

structure Drawable where
  name : String
  shape : Shape
  rgba : Rgba
  specular : Vec3
  shininess : Float32
  material : Option String
deriving DecidableEq, Repr

def Drawable.ofShape (name : String) (shape : Shape) : Drawable :=
  ⟨name, shape, .standard, standardSpecular, standardShininess, none⟩

def Drawable.painted (d : Drawable) (m : Material) : Drawable :=
  { d with rgba := m.diffuse, specular := m.specular, shininess := m.shininess, material := some m.name }

/-- The six distinct entries of a symmetric inertia tensor. -/
structure Inertia where
  xx : Float32
  xy : Float32
  xz : Float32
  yy : Float32
  yz : Float32
  zz : Float32
deriving DecidableEq, Repr

namespace Inertia

def zero : Inertia := ⟨0, 0, 0, 0, 0, 0⟩

def ofDiagonal (d : Vec3) : Inertia := ⟨d.x, 0, 0, d.y, 0, d.z⟩

def toList (i : Inertia) : List Float32 := [i.xx, i.xy, i.xz, i.yy, i.yz, i.zz]

def diagonal (i : Inertia) : Vec3 := ⟨i.xx, i.yy, i.zz⟩

def matrix (i : Inertia) : List (List Float32) :=
  [[i.xx, i.xy, i.xz], [i.xy, i.yy, i.yz], [i.xz, i.yz, i.zz]]

end Inertia

structure Inertial where
  pose : Pose
  mass : Float32
  inertia : Inertia
deriving DecidableEq, Repr

def Inertial.none : Inertial := ⟨.identity, 0, .zero⟩

/-- What a body holds apart from the bodies below it. -/
structure Link where
  name : String
  /-- The position in pre-order, known once the tree is finished. -/
  id : Option Nat
  parent : Option Nat
  /-- The frame of the body in its parent's. -/
  pose : Pose
  world : Pose
  joints : List Joint
  colliders : List Collider
  drawables : List Drawable
  inertial : Option Inertial
deriving DecidableEq, Repr

def Link.ofName (name : String) : Link := ⟨name, none, none, .identity, .identity, [], [], [], none⟩

def Link.joint? (link : Link) (name : String) : Option Joint := link.joints.find? (·.name == name)

abbrev Body := Rose Link

namespace Body

def ofName (name : String) : Body := .node (.ofName name) []

def link (body : Body) : Link := body.value

def name (body : Body) : String := body.link.name

def placed : Body → Pose → Body
  | .node link children, pose => .node { link with pose } children

/-- The body with a joint behind those it has. -/
def jointed : Body → Joint → Body
  | .node link children, joint => .node { link with joints := link.joints ++ [joint] } children

/-- Hangs a body below another, behind the bodies already there. -/
def attach : Body → Body → Pose → Body
  | .node link children, child, pose => .node link (children ++ [child.placed pose])

/-- Hangs a body below another, before the bodies already there. -/
def attachFirst : Body → Body → Pose → Body
  | .node link children, child, pose => .node link (child.placed pose :: children)

section

variable (body child : Body) (pose : Pose) (joint : Joint)

@[simp] theorem link_placed : (body.placed pose).link = { body.link with pose } := by cases body; rfl

@[simp] theorem children_placed : (body.placed pose).children = body.children := by cases body; rfl

@[simp] theorem name_placed : (body.placed pose).name = body.name := by cases body; rfl

@[simp] theorem link_jointed :
    (body.jointed joint).link = { body.link with joints := body.link.joints ++ [joint] } := by
  cases body; rfl

@[simp] theorem children_jointed : (body.jointed joint).children = body.children := by cases body; rfl

@[simp] theorem name_jointed : (body.jointed joint).name = body.name := by cases body; rfl

theorem attachFirst_eq :
    body.attachFirst child pose = .node body.link (child.placed pose :: body.children) := by
  cases body; rfl

@[simp] theorem name_attachFirst : (body.attachFirst child pose).name = body.name := by
  cases body; rfl

end

def bodies (body : Body) : List Body := Rose.walk [body]

theorem bodies_eq (body : Body) : body.bodies = body.subtrees := by
  rw [bodies, Rose.walk_eq_subtreesAll, Rose.subtreesAll, Rose.subtreesAll, List.append_nil]

def find? (body : Body) (name : String) : Option Body := body.bodies.find? (·.name == name)

end Body

end Articulation
