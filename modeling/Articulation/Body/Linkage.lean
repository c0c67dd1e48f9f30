import Articulation.Body.Basic
/-! Finished trees of bodies. Ids are positions in pre-order, every body knows its parent and every
joint its body, and world poses chain the relative ones from the root. World poses may be overwritten
and computed anew. -/
namespace Articulation

namespace Body

mutual
/-- The body with ids from `next` on in pre-order, and the first id left. -/
def number (parent : Option Nat) (next : Nat) : Body → Body × Nat
  | .node link children =>
    let joints := link.joints.map fun joint => { joint with owner := some next }
    let (children, after) := numberAll (some next) (next + 1) children
    (.node { link with id := some next, parent, joints } children, after)

def numberAll (parent : Option Nat) (next : Nat) : List Body → List Body × Nat
  | [] => ([], next)
  | body :: bodies =>
    let (body, next) := number parent next body
    let (bodies, next) := numberAll parent next bodies
    (body :: bodies, next)
end

mutual
/-- The body with world poses of bodies and joints chained from its parent's. -/
def propagate (parentWorld : Pose) : Body → Body
  | .node link children =>
    let world := parentWorld * link.pose
    let joints := link.joints.map fun joint => { joint with world := world * joint.pose }
    .node { link with world, joints } (propagateAll world children)

def propagateAll (parentWorld : Pose) : List Body → List Body
  | [] => []
  | body :: bodies => body.propagate parentWorld :: propagateAll parentWorld bodies
end

mutual
/-- The body with the world pose of the first body of that id overwritten, if there is one. -/
def writeWorld? (id : Nat) (world : Pose) : Body → Option Body
  | .node link children =>
    if link.id = some id then some (.node { link with world } children)
    else (writeWorldAll? id world children).map fun children => .node link children

def writeWorldAll? (id : Nat) (world : Pose) : List Body → Option (List Body)
  | [] => none
  | body :: bodies =>
    match body.writeWorld? id world with
    | some body => some (body :: bodies)
    | none => (writeWorldAll? id world bodies).map (body :: ·)
end

end Body

structure Linkage where
  root : Body
  size : Nat

namespace Linkage

def update (t : Linkage) : Linkage := { t with root := t.root.propagate .identity }

/-- Finishes a tree, whatever ids, owners and world poses its bodies carried before. -/
def ofBody (root : Body) : Linkage :=
  let (root, size) := root.number none 0
  update { root, size }

def bodies (t : Linkage) : List Body := t.root.bodies

def get? (t : Linkage) (id : Nat) : Option Body := t.bodies[id]?

def find? (t : Linkage) (name : String) : Option Body := t.root.find? name

def parentOf? (t : Linkage) (body : Body) : Option Body := body.link.parent.bind t.get?

def joints (t : Linkage) : List (Body × Joint) :=
  t.bodies.flatMap fun body => body.link.joints.map fun joint => (body, joint)

def joint? (t : Linkage) (name : String) : Option Joint :=
  (t.joints.find? (·.2.name == name)).map (·.2)

def dof (t : Linkage) : Nat := (t.joints.map (·.2.type.dof)).foldr (· + ·) 0

def actuatedJoints (t : Linkage) : List Joint :=
  (t.joints.map (·.2)).filter (·.type.isActuated)

def writeWorld? (t : Linkage) (id : Nat) (world : Pose) : Option Linkage :=
  (t.root.writeWorld? id world).map fun root => { t with root }

end Linkage

end Articulation
