import Articulation.Proofs.Body.Numbering
import Articulation.Proofs.Resolved
import Articulation.Proofs.Rose.Matching
/-! Changes of the frames in a tree. They keep every name, the order of all parts, and of every shape
all but its frame; collider and drawable of one geom stay at one frame. Finishing a tree is such a
change. -/
namespace Articulation

/-- The joint without its frames and its owner. -/
def Joint.unplaced (joint : Joint) : Joint :=
  { joint with pose := .identity, world := .identity, owner := none }

def Collider.reframed (f : Pose → Pose) (c : Collider) : Collider :=
  { c with shape := c.shape.placed (f c.shape.pose) }

def Drawable.reframed (f : Pose → Pose) (d : Drawable) : Drawable :=
  { d with shape := d.shape.placed (f d.shape.pose) }

/-- The later link is the earlier one with other frames, and with all shapes moved in one way. -/
structure Link.Reframed (before after : Link) : Prop where
  name : after.name = before.name
  joints : after.joints.map Joint.unplaced = before.joints.map Joint.unplaced
  shapes : ∃ f : Pose → Pose, after.colliders = before.colliders.map (Collider.reframed f) ∧
    after.drawables = before.drawables.map (Drawable.reframed f)

abbrev Body.Reframed (before after : Body) : Prop := Rose.Matches Link.Reframed before after

namespace Link.Reframed

variable {a : Assets} {before between after : Link}

theorem refl (link : Link) : link.Reframed link :=
  ⟨rfl, rfl, fun pose => pose, (List.map_id _).symm, (List.map_id _).symm⟩

theorem trans (first : before.Reframed between) (second : between.Reframed after) :
    before.Reframed after := by
  obtain ⟨f, colliders, drawables⟩ := first.shapes
  obtain ⟨g, moved, drawn⟩ := second.shapes
  refine ⟨second.name.trans first.name, second.joints.trans first.joints, fun pose => g (f pose), ?_, ?_⟩
  · rw [moved, colliders, List.map_map]
    rfl
  · rw [drawn, drawables, List.map_map]
    rfl

theorem resolved (reframed : before.Reframed after) (resolved : before.Resolved a) : after.Resolved a := by
  obtain ⟨f, colliders, drawables⟩ := reframed.shapes
  constructor
  · intro c member
    rw [colliders] at member
    obtain ⟨c, listed, rfl⟩ := List.mem_map.mp member
    exact (resolved.colliders c listed).placed _
  · intro d member
    rw [drawables] at member
    obtain ⟨d, listed, rfl⟩ := List.mem_map.mp member
    have known := resolved.drawables d listed
    exact ⟨known.shape.placed _, known.material⟩

/-- What finishing adds to a link leaves its parts at their frames. -/
theorem of_bare (same : before.bare = after.bare) : before.Reframed after := by
  have unowned (link : Link) : link.joints.map Joint.unplaced = link.bare.joints.map Joint.unplaced := by
    rw [Link.bare, List.map_map]
    rfl
  refine ⟨(congrArg Link.name same).symm, by rw [unowned, ← same, ← unowned],
    fun pose => pose, ?_, ?_⟩
  · exact (congrArg Link.colliders same).symm.trans (List.map_id _).symm
  · exact (congrArg Link.drawables same).symm.trans (List.map_id _).symm

end Link.Reframed

namespace Body

variable {a : Assets} {before after : Body}

theorem Reframed.resolved (reframed : before.Reframed after) (resolved : before.Resolved a) :
    after.Resolved a := by
  intro link member
  obtain ⟨earlier, listed, reframed⟩ := exists_of_forall₂ reframed.preorder.flip member
  exact reframed.resolved (resolved earlier listed)

theorem Reframed.branches (reframed : before.Reframed after) : before.branches = after.branches := by
  induction before using Rose.induction generalizing after with
  | step link children ih =>
    have name : after.name = link.name := reframed.value.name
    have below := reframed.children_imp (S := fun child other : Body =>
      (link.name, child.name) :: child.branches = (link.name, other.name) :: other.branches) ?_
    · rw [branches_eq, branches_eq after, name]
      exact congrArg List.flatten (map_eq_of_forall₂ below)
    · intro child member other same
      have name : Body.name other = Body.name child := same.value.name
      rw [name, ih child member same]

theorem reframed_ofBody (tree : Body) : tree.Reframed (Linkage.ofBody tree).root :=
  (Rose.Matches.of_map_eq (Linkage.bare_ofBody tree).symm).imp Link.Reframed.of_bare

end Body

end Articulation
