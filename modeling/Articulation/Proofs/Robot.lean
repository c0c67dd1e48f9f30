import Articulation.Proofs.Body.Names
import Articulation.Proofs.Body.Reframing
/-! Models without dangling references, and what a session and a tree must meet for the model that is
finished from them to be one. -/
namespace Articulation

/-- Every reference in the model leads to something in the model, or a diagnostic tells of it. -/
structure Robot.Closed (robot : Robot) : Prop where
  meshes : (robot.meshes.map Mesh.id).Nodup
  materials : (robot.materials.map Material.name).Nodup
  heightfields : (robot.heightfields.map Heightfield.id).Nodup
  /-- What a shape carries is the entry of that id. -/
  shapes : ∀ body ∈ robot.linkage.bodies,
    ∀ shape ∈ body.link.colliders.map Collider.shape ++ body.link.drawables.map Drawable.shape,
      (∀ mesh, shape.mesh = some mesh → robot.mesh? mesh.id = some mesh) ∧
      (∀ grid, shape.heightfield = some grid →
        robot.heightfields.find? (fun entry => entry.id == grid.id) = some grid)
  painted : ∀ body ∈ robot.linkage.bodies, ∀ d ∈ body.link.drawables, ∀ name,
    d.material = some name → (robot.material? name).isSome = true
  driven : ∀ a ∈ robot.actuators, ∀ name, a.joint = some name → (robot.linkage.joint? name).isSome = true
  loose : ∀ a ∈ robot.actuators, a.joint = none →
    ∃ target, .unresolvedReference a.name "joint" target ∈ robot.diagnostics
  excluded : ∀ pair ∈ robot.exclusions, pair.1 ∈ robot.bodyNames ∧ pair.2 ∈ robot.bodyNames
  /-- Every body but the root is excluded from contact with its parent. -/
  attached : ∀ body ∈ robot.linkage.bodies, body ≠ robot.linkage.root →
    ∃ parent, robot.linkage.parentOf? body = some parent ∧
      robot.isExcluded parent.name body.name = true

namespace Body

/-- The edges below a body lead from a body of the tree to one of its children. -/
theorem mem_branches {body : Body} {parent child : String} :
    (parent, child) ∈ body.branches ↔
      ∃ x : Body, x ∈ body.subtrees ∧ x.name = parent ∧ child ∈ x.children.map Body.name := by
  induction body using Rose.induction with
  | step link children ih =>
    rw [branches_eq, Rose.children_node]
    constructor
    · intro edge
      obtain ⟨below, hanging, edge⟩ := List.mem_flatMap.mp edge
      rcases List.mem_cons.mp edge with here | deeper
      · obtain ⟨rfl, rfl⟩ := Prod.mk.inj here
        exact ⟨_, Rose.self_mem_subtrees _, rfl, List.mem_map_of_mem hanging⟩
      · obtain ⟨x, inside, edge⟩ := (ih below hanging).mp deeper
        exact ⟨x, Rose.mem_subtrees.mpr (.inr ⟨below, hanging, inside⟩), edge⟩
    · rintro ⟨x, inside, rfl, listed⟩
      rcases Rose.mem_subtrees.mp inside with rfl | ⟨below, hanging, deeper⟩
      · obtain ⟨below, hanging, rfl⟩ := List.mem_map.mp listed
        exact List.mem_flatMap.mpr ⟨below, hanging, List.mem_cons_self⟩
      · have edge := (ih below hanging).mpr ⟨x, deeper, rfl, listed⟩
        exact List.mem_flatMap.mpr ⟨below, hanging, List.mem_cons_of_mem _ edge⟩

/-- Both ends of an edge are bodies of the tree. -/
theorem names_of_mem_branches {body : Body} {edge : String × String} (member : edge ∈ body.branches) :
    edge.1 ∈ body.bodies.map Body.name ∧ edge.2 ∈ body.bodies.map Body.name := by
  obtain ⟨x, inside, named, listed⟩ := mem_branches.mp member
  obtain ⟨child, hanging, same⟩ := List.mem_map.mp listed
  rw [bodies_eq, ← named, ← same]
  exact ⟨List.mem_map_of_mem inside,
    List.mem_map_of_mem (Rose.subtrees_trans (Rose.child_mem_subtrees hanging) inside)⟩

end Body

namespace Linkage

theorem joint?_isSome {t : Linkage} {joint : Joint} (member : joint ∈ t.actuatedJoints) :
    (t.joint? joint.name).isSome = true := by
  obtain ⟨pair, listed, rfl⟩ := List.mem_map.mp (List.mem_of_mem_filter member)
  exact joint?_isSome_iff.mpr (List.mem_map_of_mem listed)

end Linkage

namespace Session

variable {s : Session} {tree : Body} {actuators : List Actuator}

/-- A session and a tree whose references are resolved finish to a model without dangling ones, if every
edge of the tree is excluded and nothing but its bodies is. -/
theorem closed_finish (resolved : tree.Resolved s.assets)
    (driven : ∀ a ∈ actuators, a.Resolved (.ofBody tree) s.diagnostics)
    (excluded : ∀ pair ∈ s.exclusions, pair.1 ∈ tree.bodies.map Body.name ∧
      pair.2 ∈ tree.bodies.map Body.name)
    (attached : ∀ edge ∈ tree.branches, edge ∈ s.exclusions) (name : String) :
    (s.finish name (.ofBody tree) actuators).Closed := by
  have links : ∀ body ∈ (Linkage.ofBody tree).bodies, body.link.Resolved s.assets := by
    intro body member
    rw [Linkage.bodies, Body.bodies_eq] at member
    exact tree.reframed_ofBody.resolved resolved _ (List.mem_map_of_mem member)
  refine ⟨s.assets.meshes.distinct, s.assets.materials.distinct, s.assets.heightfields.distinct,
    ?_, ?_, ?_, ?_, ?_, ?_⟩
  · intro body member shape listed
    have known := (links body member).shapes listed
    exact ⟨fun mesh of => (Catalog.find?_eq _ _).symm.trans (known.mesh mesh of),
      fun grid of => (Catalog.find?_eq _ _).symm.trans (known.heightfield grid of)⟩
  · intro body member d listed material named
    obtain ⟨found, registered⟩ := ((links body member).drawables d listed).material material named
    exact Option.isSome_iff_exists.mpr ⟨found, (Catalog.find?_eq _ _).symm.trans registered⟩
  · exact fun a member => (driven a member).driven
  · exact fun a member => (driven a member).loose
  · intro pair member
    rw [Robot.bodyNames, show (s.finish name (.ofBody tree) actuators).linkage = .ofBody tree from rfl,
      Linkage.names_ofBody]
    exact excluded pair member
  · intro body member other
    obtain ⟨parent, found, edge⟩ := Linkage.exists_branch member other
    refine ⟨parent, found, List.any_eq_true.mpr ⟨_, attached _ edge, ?_⟩⟩
    rw [beq_self_eq_true, Bool.true_or]

end Session

end Articulation
