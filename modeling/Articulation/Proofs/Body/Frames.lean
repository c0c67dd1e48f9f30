import Articulation.Proofs.Body.Reframing
/-! Frames apart from all else on the bodies of a tree. Finishing neither reads nor moves them, so that trees
that differ in frames alone finish to trees that do, and what their frames have to do with each other while
the trees are made they keep in the finished ones. -/
namespace Articulation

/-- The joint without its frames. -/
def Joint.frameless (joint : Joint) : Joint := { joint with pose := .identity, world := .identity }

/-- The link and all that is on it without frames. -/
def Link.frameless (link : Link) : Link :=
  { link with
    pose := .identity
    world := .identity
    joints := link.joints.map Joint.frameless
    colliders := link.colliders.map (Collider.reframed fun _ => .identity)
    drawables := link.drawables.map (Drawable.reframed fun _ => .identity)
    inertial := link.inertial.map fun i => { i with pose := .identity } }

/-- The frames of the later link are those of the earlier one, seen from elsewhere: its own from a frame
above it, and all that are on it from its own. -/
structure Link.SeenFrom (above : Pose) (before after : Link) : Prop where
  pose : after.pose = above.inverse * before.pose
  joints : after.joints.map Joint.pose =
    before.joints.map fun joint => before.pose.inverse * joint.pose
  colliders : after.colliders.map (fun c => c.shape.pose) =
    before.colliders.map fun c => before.pose.inverse * c.shape.pose
  drawables : after.drawables.map (fun d => d.shape.pose) =
    before.drawables.map fun d => before.pose.inverse * d.shape.pose
  inertial : after.inertial.map Inertial.pose =
    before.inertial.map fun i => before.pose.inverse * i.pose

theorem Link.poses_bare (link : Link) : link.bare.joints.map Joint.pose = link.joints.map Joint.pose := by
  rw [bare, List.map_map]
  rfl

theorem Link.seenFrom_bare {above : Pose} {before after : Link} :
    before.bare.SeenFrom above after.bare ↔ before.SeenFrom above after := by
  have seen : (before.bare.joints.map fun joint => before.bare.pose.inverse * joint.pose) =
      before.joints.map fun joint => before.pose.inverse * joint.pose := by
    rw [bare, List.map_map]
    rfl
  constructor
  · rintro ⟨pose, moved, colliders, drawables, inertial⟩
    rw [poses_bare, seen] at moved
    exact ⟨pose, moved, colliders, drawables, inertial⟩
  · rintro ⟨pose, moved, colliders, drawables, inertial⟩
    rw [← poses_bare, ← seen] at moved
    exact ⟨pose, moved, colliders, drawables, inertial⟩

namespace Body

/-! ### Trees without frames -/

def frameless (body : Body) : Body := body.map Link.frameless

theorem frameless_node (link : Link) (children : List Body) :
    frameless (.node link children) = .node link.frameless (children.map frameless) :=
  congrArg (Rose.node _) (Rose.mapAll_eq _ children)

/-- Numbers do not depend on frames. -/
theorem number_frameless (body : Body) (parent : Option Nat) (next : Nat) :
    number parent next body.frameless =
      ((number parent next body).1.frameless, (number parent next body).2) := by
  refine number_map (fun parent id link => ?_) body parent next
  have owned : (link.joints.map fun joint => { joint with owner := some id }).map Joint.frameless =
      (link.joints.map Joint.frameless).map fun joint => { joint with owner := some id } := by
    rw [List.map_map, List.map_map]
    rfl
  rw [Link.frameless, numbered, owned]
  rfl

/-- World poses are frames. -/
theorem propagate_frameless (body : Body) (world : Pose) :
    (body.propagate world).frameless = body.frameless := by
  refine map_propagate (fun around link => ?_) body world
  have joints : (chained around link).joints.map Joint.frameless = link.joints.map Joint.frameless := by
    rw [chained, List.map_map]
    rfl
  rw [Link.frameless, joints]
  rfl

/-! ### Trees seen from elsewhere -/

mutual
/-- The links of a tree, each with the frame of the link above it. -/
def withAbove (above : Pose) : Body → Rose (Pose × Link)
  | .node link children => .node (above, link) (withAboveAll link.pose children)

def withAboveAll (above : Pose) : List Body → List (Rose (Pose × Link))
  | [] => []
  | body :: bodies => withAbove above body :: withAboveAll above bodies
end

theorem withAboveAll_eq (above : Pose) (bodies : List Body) :
    withAboveAll above bodies = bodies.map (withAbove above) := by
  induction bodies with
  | nil => rfl
  | cons body bodies ih => rw [withAboveAll, ih, List.map_cons]

theorem withAbove_bare (body : Body) (above : Pose) :
    withAbove above body.bare = (withAbove above body).map fun a => (a.1, a.2.bare) := by
  induction body using Rose.induction generalizing above with
  | step link children ih =>
    rw [bare_node, withAbove, withAbove, withAboveAll_eq, withAboveAll_eq, Rose.map, Rose.mapAll_eq,
      List.map_map, List.map_map]
    exact congrArg (Rose.node _) (List.map_congr_left fun child member => ih child member _)

/-- Every body of the later tree is the one at its place in the earlier tree, seen from the frame that the
body above has in the earlier tree. -/
abbrev SeenFrom (above : Pose) (before after : Body) : Prop :=
  Rose.Matches (fun a b => a.2.SeenFrom a.1 b) (withAbove above before) after

/-- What finishing writes does not matter. -/
theorem seenFrom_bare {above : Pose} {before after : Body} :
    SeenFrom above before.bare after.bare ↔ SeenFrom above before after := by
  rw [SeenFrom, withAbove_bare, bare, Rose.Matches.map_iff]
  simp only [Link.seenFrom_bare]

end Body

namespace Linkage

/-- Trees that differ in frames alone finish to trees that do. -/
theorem frameless_ofBody {tree other : Body} (same : tree.frameless = other.frameless) :
    (ofBody tree).root.frameless = (ofBody other).root.frameless ∧
      (ofBody tree).size = (ofBody other).size := by
  have numbered := Body.number_frameless tree none 0
  rw [same, Body.number_frameless] at numbered
  obtain ⟨root, size⟩ := Prod.mk.inj numbered
  constructor
  · calc (ofBody tree).root.frameless
        = (tree.number none 0).1.frameless := Body.propagate_frameless _ _
      _ = (other.number none 0).1.frameless := root.symm
      _ = (ofBody other).root.frameless := (Body.propagate_frameless _ _).symm
  · exact size.symm

/-- The frame of the parent of a body, for the root the identity. -/
def poseAbove (t : Linkage) (body : Body) : Pose :=
  ((t.parentOf? body).map fun parent => parent.link.pose).getD .identity

theorem preorder_withAbove {tree x : Body} (member : x ∈ (ofBody tree).bodies) :
    (Body.withAbove ((ofBody tree).poseAbove x) x).preorder =
      x.subtrees.map fun body : Body => ((ofBody tree).poseAbove body, body.link) := by
  induction x using Rose.induction with
  | step link children ih =>
    have below : ∀ child ∈ children, Body.withAbove link.pose child =
        Body.withAbove ((ofBody tree).poseAbove child) child := by
      intro child hanging
      rw [poseAbove, parentOf?_child member hanging]
      rfl
    rw [Body.withAbove, Body.withAboveAll_eq, Rose.preorder_eq, Rose.subtrees_eq, List.map_cons,
      Rose.subtreesAll_eq, List.map_flatMap, Rose.children_node, Rose.children_node, List.flatMap_map]
    refine congrArg (_ :: List.flatten ·) (List.map_congr_left fun child hanging => ?_)
    have inside : child ∈ (ofBody tree).bodies := by
      have lower : child ∈ Rose.subtrees (.node link children) := Rose.child_mem_subtrees hanging
      rw [bodies, Body.bodies_eq] at member ⊢
      exact Rose.subtrees_trans lower member
    rw [below child hanging, ih child hanging inside]

/-- What one tree is seen from another, it is once both are finished, body by body. -/
theorem seenFrom_ofBody {tree other : Body} (seen : tree.SeenFrom .identity other) :
    List.Forall₂ (fun a b : Body => a.link.SeenFrom ((ofBody tree).poseAbove a) b.link)
      (ofBody tree).bodies (ofBody other).bodies := by
  have finished : (ofBody tree).root.SeenFrom .identity (ofBody other).root := by
    rw [← Body.seenFrom_bare, bare_ofBody, bare_ofBody, Body.seenFrom_bare]
    exact seen
  have top : (ofBody tree).root ∈ (ofBody tree).bodies := by
    rw [bodies, Body.bodies_eq]
    exact Rose.self_mem_subtrees _
  have root : (ofBody tree).poseAbove (ofBody tree).root = .identity := by
    rw [poseAbove, parentOf?_root]
    rfl
  have listed := finished.preorder
  rw [← root, preorder_withAbove top, List.forall₂_map_left_iff, Rose.preorder,
    List.forall₂_map_right_iff] at listed
  rw [bodies, bodies, Body.bodies_eq, Body.bodies_eq]
  exact listed

end Linkage

end Articulation
