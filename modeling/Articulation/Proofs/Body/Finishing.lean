import Articulation.Body.Linkage
/-! Finishing a tree writes ids, parents, owners and world poses and nothing else: without them the
finished tree is the tree it was made of. -/
namespace Articulation

/-- The joint without its owner and world pose. -/
def Joint.bare (joint : Joint) : Joint := { joint with owner := none, world := .identity }

/-- The link without what is known only of a finished tree. -/
def Link.bare (link : Link) : Link :=
  { link with id := none, parent := none, world := .identity, joints := link.joints.map Joint.bare }

namespace Body

/-- The tree without what is known only of a finished one. -/
def bare (body : Body) : Body := body.map Link.bare

@[simp] theorem link_bare (body : Body) : body.bare.link = body.link.bare := Rose.value_map _ body

@[simp] theorem children_bare (body : Body) : body.bare.children = body.children.map bare :=
  Rose.children_map _ body

@[simp] theorem name_bare (body : Body) : body.bare.name = body.name := by
  rw [name, link_bare]
  rfl

theorem bodies_bare (body : Body) : body.bare.bodies = body.bodies.map bare := by
  rw [bodies_eq, bodies_eq]
  exact Rose.subtrees_map _ body

theorem bare_node (link : Link) (children : List Body) :
    bare (.node link children) = .node link.bare (children.map bare) :=
  congrArg (Rose.node _) (Rose.mapAll_eq _ children)

theorem numberAll_bare {bodies : List Body}
    (same : ∀ body ∈ bodies, ∀ parent next, (number parent next body).1.bare = bare body)
    (parent : Option Nat) (next : Nat) :
    (numberAll parent next bodies).1.map bare = bodies.map bare := by
  induction bodies generalizing next with
  | nil => rfl
  | cons body bodies ih =>
    obtain ⟨first, rest⟩ := List.forall_mem_cons.mp same
    rw [numberAll, List.map_cons, List.map_cons, first, ih rest]

theorem number_bare (body : Body) (parent : Option Nat) (next : Nat) :
    (number parent next body).1.bare = body.bare := by
  induction body using Rose.induction generalizing parent next with
  | step link children ih =>
    have below := numberAll_bare ih (some next) (next + 1)
    have owned : (link.joints.map fun joint => { joint with owner := some next }).map Joint.bare =
        link.joints.map Joint.bare := by
      rw [List.map_map]
      rfl
    rw [bare_node, ← below, number, bare_node, Link.bare, owned]
    rfl

theorem propagateAll_eq (world : Pose) (bodies : List Body) :
    propagateAll world bodies = bodies.map (propagate world) := by
  induction bodies with
  | nil => rfl
  | cons body bodies ih => rw [propagateAll, ih, List.map_cons]

theorem propagate_bare (body : Body) (world : Pose) : (body.propagate world).bare = body.bare := by
  induction body using Rose.induction generalizing world with
  | step link children ih =>
    have below : (children.map (propagate (world * link.pose))).map bare = children.map bare := by
      rw [List.map_map]
      exact List.map_congr_left fun body member => ih body member _
    have chained : (link.joints.map fun joint =>
        { joint with world := world * link.pose * joint.pose }).map Joint.bare =
        link.joints.map Joint.bare := by
      rw [List.map_map]
      rfl
    rw [bare_node, ← below, propagate, propagateAll_eq, bare_node, Link.bare, chained]
    rfl

end Body

namespace Linkage

theorem bare_ofBody (tree : Body) : (ofBody tree).root.bare = tree.bare :=
  (Body.propagate_bare _ _).trans (Body.number_bare tree none 0)

theorem bodies_ofBody (tree : Body) : (ofBody tree).bodies.map Body.bare = tree.bodies.map Body.bare := by
  rw [bodies, ← Body.bodies_bare, bare_ofBody, Body.bodies_bare]

theorem names_ofBody (tree : Body) : (ofBody tree).bodies.map Body.name = tree.bodies.map Body.name := by
  have names := congrArg (List.map Body.name) (bodies_ofBody tree)
  simpa only [List.map_map, Function.comp_def, Body.name_bare] using names

/-- Every body of a tree stands in the finished tree, bare of what finishing writes. -/
theorem mem_ofBody {tree body : Body} (member : body ∈ tree.bodies) :
    ∃ finished ∈ (ofBody tree).bodies, finished.bare = body.bare := by
  have listed := List.mem_map_of_mem (f := Body.bare) member
  rw [← bodies_ofBody] at listed
  exact List.mem_map.mp listed

/-- Every body of the finished tree stands in the tree that it was made of. -/
theorem exists_of_mem_ofBody {tree finished : Body} (member : finished ∈ (ofBody tree).bodies) :
    ∃ body ∈ tree.bodies, finished.bare = body.bare := by
  have listed := List.mem_map_of_mem (f := Body.bare) member
  rw [bodies_ofBody] at listed
  obtain ⟨body, present, same⟩ := List.mem_map.mp listed
  exact ⟨body, present, same.symm⟩

end Linkage

end Articulation
