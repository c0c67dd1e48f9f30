import Articulation.Load
import Articulation.Proofs.Mjcf.Outcome
import Articulation.Proofs.Rlsim.References
import Articulation.Proofs.Urdf.Parts
/-! Whatever a model was compiled from, none of its references dangles. -/
namespace Articulation

variable {surroundings : Surroundings} {robot : Robot}

namespace Mjcf

/-- The contacts of a model are those along its tree and those between two of its bodies. -/
theorem IsModel.closed {root first : Element} {written : Body} {last : Session}
    (model : IsModel surroundings root first written last robot) : robot.Closed := by
  obtain ⟨name, finished⟩ := model.finished
  have moved := reframed_resolved (documentRules surroundings root).coordinate written
  -- exclusions were gathered before the bodies moved to other frames, which keeps the edges
  have contacts := model.exclusions
  rw [moved.branches] at contacts
  rw [finished]
  refine Session.closed_finish (moved.resolved model.resolved) ?_ ?_ ?_ name
  · intro a listed
    obtain ⟨_, _, _, resolved⟩ := exists_of_forall₂ model.actuators.flip listed
    exact resolved
  · intro pair listed
    rw [contacts] at listed
    rcases List.mem_append.mp listed with edge | contact
    · exact Body.names_of_mem_branches edge
    · obtain ⟨e, _, excluded⟩ := List.mem_filterMap.mp contact
      have known := mem_of_excludedPair? excluded
      rw [documentLinkage, Linkage.names_ofBody] at known
      exact known
  · intro edge branch
    rw [contacts]
    exact List.mem_append_left _ branch

theorem closed_of_compile {kind : SchemaKind} {root : Element}
    (compiled : compile surroundings kind root = .ok robot) : robot.Closed := by
  cases kind with
  | urdf => contradiction
  | mjcf =>
    rw [compile_mjcf] at compiled
    cases found : rootBody root (documentName surroundings root) with
    | error e =>
      rw [found] at compiled
      contradiction
    | ok first =>
      rw [found] at compiled
      cases compiled
      obtain ⟨world, _, inside⟩ := rootBody_eq_ok.mp found
      obtain ⟨_, kind⟩ := Element.child?_eq_some inside
      obtain ⟨written, last, model⟩ := isModel_model surroundings root (documentName surroundings root) kind
      exact model.closed

end Mjcf

theorem closed_of_compileElement {kind : SchemaKind} {root : Element}
    (compiled : compileElement surroundings kind root = .ok robot) : robot.Closed := by
  unfold compileElement at compiled
  split at compiled
  · exact Mjcf.closed_of_compile compiled
  · exact Urdf.closed_of_compile compiled

/-- A text compiles as the element tree that is read from it. -/
theorem compileMarkup_of_read {kind : SchemaKind} {text : String} {t : ElementTree}
    (read : ElementTree.read kind.schema text = .ok t) :
    compileMarkup surroundings kind text = compileElement surroundings kind t.root := by
  rw [ElementTree.read_eq] at read
  obtain ⟨root, made, rfl⟩ := map_eq_ok.mp read
  rw [compileMarkup, made, ElementTree.root_ofElement]
  rfl

theorem closed_of_compileMarkup {kind : SchemaKind} {text : String}
    (compiled : compileMarkup surroundings kind text = .ok robot) : robot.Closed := by
  obtain ⟨root, _, compiled⟩ := bind_eq_ok.mp compiled
  exact closed_of_compileElement compiled

theorem Rlsim.closed_of_compile {text : String} (compiled : Rlsim.compile surroundings text = .ok robot) :
    robot.Closed := by
  unfold Rlsim.compile at compiled
  split at compiled
  · exact Rlsim.closed_of_build compiled
  · contradiction

/-- No reference in a compiled model dangles, whatever the dialect of the document and the settings. -/
theorem closed_of_load (surroundings : Surroundings) (robot : Robot) :
    (∀ dialect text, compileText surroundings dialect text = .ok robot → robot.Closed) ∧
    ∀ tree, compileTree surroundings tree = .ok robot → robot.Closed := by
  constructor
  · intro dialect text compiled
    obtain ⟨_, _, compiled⟩ := bind_eq_ok.mp compiled
    cases dialect with
    | mjcf => exact closed_of_compileMarkup compiled
    | urdf => exact closed_of_compileMarkup compiled
    | rlsim => exact Rlsim.closed_of_compile compiled
  · intro tree compiled
    obtain ⟨_, _, compiled⟩ := bind_eq_ok.mp compiled
    exact closed_of_compileElement compiled

/-- A document whose geom carries a mesh that it does not declare and whose actuator drives no joint. -/
def looseArmText : String :=
  "<mujoco><worldbody><body name='arm'><geom type='mesh' mesh='bone'/><body name='hand'/></body></worldbody>"
    ++ "<actuator><motor joint='knee'/></actuator></mujoco>"

def looseArm : ElementTree :=
  .ofElement Schema.mjcf (Mjcf.element "mujoco" [] [
    Mjcf.element "worldbody" [] [Mjcf.element "body" [("name", "arm")] [
      Mjcf.element "geom" [("type", "mesh"), ("mesh", "bone")] [],
      Mjcf.element "body" [("name", "hand")] []]],
    Mjcf.element "actuator" [] [Mjcf.element "motor" [("joint", "knee")] []]])

theorem closed_of_load_loose :
    ∃ robot, compileText (.ofSettings .standard) .mjcf looseArmText = .ok robot ∧ robot.Closed ∧
      robot.meshes.map Mesh.id = ["bone"] ∧ robot.exclusions = [("arm", "hand")] ∧
      robot.actuators.map Actuator.joint = [none] := by
  have read : ElementTree.read SchemaKind.mjcf.schema looseArmText = .ok looseArm := by
    decide +kernel
  have compiled : ∃ robot, compileText (.ofSettings .standard) .mjcf looseArmText = .ok robot ∧
      robot.meshes.map Mesh.id = ["bone"] ∧ robot.exclusions = [("arm", "hand")] ∧
      robot.actuators.map Actuator.joint = [none] := by
    rw [compileText, compileMarkup_of_read read]
    exact ⟨_, by rfl, by decide +kernel, by decide +kernel, by decide +kernel⟩
  obtain ⟨robot, compiled, contents⟩ := compiled
  exact ⟨robot, compiled, (closed_of_load _ robot).1 _ _ compiled, contents⟩

end Articulation
