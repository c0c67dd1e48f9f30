import Articulation.Proofs.Body.Access
/-! World poses over time. A consumer overwrites them, body by body, and computes them anew. As they depend on
the relative poses alone, computing them anew brings back those that the tree had when it was finished,
whatever was written. -/
namespace Articulation

/-- The joint without its world pose. -/
def Joint.worldless (joint : Joint) : Joint := { joint with world := .identity }

/-- The link without the world poses of it and its joints. -/
def Link.worldless (link : Link) : Link :=
  { link with world := .identity, joints := link.joints.map Joint.worldless }

namespace Body

def worldless (body : Body) : Body := body.map Link.worldless

/-- Nothing but world poses is computed. -/
theorem propagate_worldless (body : Body) (world : Pose) :
    (propagate world body).worldless = body.worldless := by
  refine map_propagate (fun around link => ?_) body world
  have joints : (chained around link).joints.map Joint.worldless = link.joints.map Joint.worldless := by
    rw [chained, List.map_map]
    rfl
  rw [Link.worldless, joints]
  rfl

/-- No world pose of a tree is read when they are computed. -/
theorem worldless_propagate (body : Body) (world : Pose) :
    propagate world body.worldless = propagate world body := by
  induction body using Rose.induction generalizing world with
  | step link children ih =>
    have here : chained world link.worldless = chained world link := by
      rw [chained, chained, Link.worldless, List.map_map]
      rfl
    have below : (children.map worldless).map (propagate (world * link.pose)) =
        children.map (propagate (world * link.pose)) := by
      rw [List.map_map]
      exact List.map_congr_left fun child member => ih child member _
    rw [worldless, Rose.map, Rose.mapAll_eq, propagate_eq_node, propagate_eq_node, here]
    exact congrArg (Rose.node _) below

theorem propagate_congr {body other : Body} (same : body.worldless = other.worldless) (world : Pose) :
    propagate world body = propagate world other := by
  rw [← worldless_propagate body, same, worldless_propagate]

/-- Ids, parents and owners from before the tree was finished are not read. -/
theorem number_of_bare (body : Body) (parent : Option Nat) (next : Nat) :
    number parent next body.bare =
      ((number parent next body).1.worldless, (number parent next body).2) := by
  refine number_map (fun parent id link => ?_) body parent next
  have joints : (numbered parent id link).joints.map Joint.worldless =
      link.bare.joints.map fun joint => { joint with owner := some id } := by
    rw [numbered, Link.bare, List.map_map, List.map_map]
    rfl
  rw [Link.worldless, joints]
  rfl

theorem worldless_overwrite (body : Body) (id : Nat) (world : Pose) :
    worldless (body.map (overwrite id world)) = body.worldless := by
  have same : Link.worldless ∘ overwrite id world = Link.worldless := by
    funext link
    rw [Function.comp_apply, overwrite]
    split <;> rfl
  rw [worldless, Rose.map_map, same, worldless]

theorem worldless_worldless (body : Body) : body.worldless.worldless = body.worldless := by
  have same : Link.worldless ∘ Link.worldless = Link.worldless := by
    funext link
    rw [Function.comp_apply, Link.worldless, Link.worldless, List.map_map]
    rfl
  rw [worldless, worldless, Rose.map_map, same]

theorem ids_worldless (body : Body) : body.worldless.ids = body.ids := by
  rw [ids, worldless, Rose.preorder_map, List.map_map]
  rfl

/-! ### Chains of world poses -/

variable {body x child : Body} {around : Pose}

theorem world_propagate (around : Pose) (body : Body) :
    (propagate around body).link.world = around * (propagate around body).link.pose := by
  cases body
  rfl

theorem world_child (member : x ∈ (propagate around body).subtrees) (hanging : child ∈ x.children) :
    child.link.world = x.link.world * child.link.pose := by
  obtain ⟨before, _, around, rfl⟩ := mem_subtrees_propagate member
  cases before
  rw [propagate_eq_node] at hanging
  obtain ⟨earlier, _, rfl⟩ := List.mem_map.mp hanging
  cases earlier
  rfl

theorem world_joint {joint : Joint} (member : x ∈ (propagate around body).subtrees)
    (listed : joint ∈ x.link.joints) : joint.world = x.link.world * joint.pose := by
  obtain ⟨before, _, around, rfl⟩ := mem_subtrees_propagate member
  cases before
  rw [propagate_eq_node] at listed
  obtain ⟨earlier, _, rfl⟩ := List.mem_map.mp listed
  rfl

end Body

namespace Linkage

variable {t u : Linkage} {tree body child : Body}

/-- The trees differ in world poses alone. -/
structure SameButWorlds (t u : Linkage) : Prop where
  root : t.root.worldless = u.root.worldless
  size : t.size = u.size

namespace SameButWorlds

theorem refl (t : Linkage) : t.SameButWorlds t := ⟨rfl, rfl⟩

theorem trans {v : Linkage} (first : t.SameButWorlds u) (second : u.SameButWorlds v) : t.SameButWorlds v :=
  ⟨first.root.trans second.root, first.size.trans second.size⟩

theorem numbered (same : t.SameButWorlds u) (numbered : u.Numbered) : t.Numbered := by
  rw [Numbered, ← Body.ids_worldless, same.root, Body.ids_worldless, same.size]
  exact numbered

theorem update_eq (same : t.SameButWorlds u) : t.update = u.update := by
  rw [update, update, Body.propagate_congr same.root, same.size]

end SameButWorlds

theorem sameButWorlds_update (t : Linkage) : t.update.SameButWorlds t :=
  ⟨Body.propagate_worldless t.root .identity, rfl⟩

theorem update_update (t : Linkage) : t.update.update = t.update := (sameButWorlds_update t).update_eq

/-- Only what stands in a tree before it is finished counts. -/
theorem ofBody_of_bare (tree : Body) : ofBody tree.bare = ofBody tree := by
  have same : SameButWorlds ⟨(tree.bare.number none 0).1, (tree.bare.number none 0).2⟩
      ⟨(tree.number none 0).1, (tree.number none 0).2⟩ := by
    rw [Body.number_of_bare]
    exact ⟨Body.worldless_worldless _, rfl⟩
  exact same.update_eq

/-! ### Writes and updates -/

/-- What a consumer does to a finished tree. -/
inductive Change where
  | write (id : Nat) (world : Pose)
  | update

/-- The tree after a change. Where there is no body of an id nothing is written. -/
def change (t : Linkage) : Change → Linkage
  | .write id world => (t.writeWorld? id world).getD t
  | .update => t.update

theorem sameButWorlds_change (numbered : t.Numbered) (c : Change) : (t.change c).SameButWorlds t := by
  cases c with
  | update => exact sameButWorlds_update t
  | write id world =>
    rw [change, numbered.writeWorld?_eq]
    split
    · exact ⟨Body.worldless_overwrite t.root id world, rfl⟩
    · exact .refl t

/-- Whatever is written and updated, and in whatever order, changes world poses alone. -/
theorem sameButWorlds_changes (numbered : t.Numbered) (changes : List Change) :
    (changes.foldl change t).SameButWorlds t := by
  induction changes generalizing t with
  | nil => exact .refl t
  | cons c changes ih =>
    have first := sameButWorlds_change numbered c
    exact (ih (first.numbered numbered)).trans first

/-- World poses chain the relative ones from the root. -/
structure Chained (t : Linkage) : Prop where
  root : t.root.link.world = .identity * t.root.link.pose
  bodies : ∀ body ∈ t.bodies, body ≠ t.root → ∃ parent, t.parentOf? body = some parent ∧
    body.link.world = parent.link.world * body.link.pose
  joints : ∀ j ∈ t.joints, ∃ owner, j.2.owner.bind t.get? = some owner ∧
    j.2.world = owner.link.world * j.2.pose

theorem chained_ofBody (tree : Body) : (ofBody tree).Chained := by
  constructor
  · exact Body.world_propagate .identity (tree.number none 0).1
  · intro body member other
    obtain ⟨parent, inside, hanging, found⟩ := exists_parentOf? member other
    rw [preorder_bodies] at inside
    exact ⟨parent, found, Body.world_child inside hanging⟩
  · intro j member
    obtain ⟨body, inside, pair⟩ := List.mem_flatMap.mp member
    obtain ⟨joint, listed, rfl⟩ := List.mem_map.mp pair
    refine ⟨body, ?_, ?_⟩
    · rw [owner_ofBody inside listed]
      exact get?_id inside
    · rw [preorder_bodies] at inside
      exact Body.world_joint inside listed

/-- What changes do to a finished tree, and what brings it back. -/
structure Recoverable (tree : Body) (t : Linkage) : Prop where
  written : ∀ id world, id < t.size → ∃ u, t.writeWorld? id world = some u ∧ t.Overwritten u id world
  missed : ∀ id world, t.size ≤ id → t.writeWorld? id world = none
  recovered : t.update = ofBody tree
  idempotent : t.update.update = t.update
  kept : t.update.SameButWorlds t

theorem recoverable_changes (tree : Body) :
    (ofBody tree).Chained ∧ (∀ other : Body, other.bare = tree.bare → ofBody other = ofBody tree) ∧
      ∀ changes : List Change, Recoverable tree (changes.foldl change (ofBody tree)) := by
  refine ⟨chained_ofBody tree, fun other same => ?_, fun changes => ?_⟩
  · rw [← ofBody_of_bare other, same, ofBody_of_bare]
  · have same := sameButWorlds_changes (numbered_ofBody tree) changes
    have numbered := same.numbered (numbered_ofBody tree)
    constructor
    · exact fun id world inside =>
        ⟨_, (numbered.writeWorld?_eq id world).trans (if_pos inside), numbered.overwritten id world⟩
    · exact fun id world outside =>
        (numbered.writeWorld?_eq id world).trans (if_neg (Nat.not_lt.mpr outside))
    · exact same.update_eq.trans (update_update _)
    · exact update_update _
    · exact sameButWorlds_update _

end Linkage

end Articulation
