import Articulation.Proofs.Assembly.References
import Articulation.Proofs.Geometry
import Articulation.Proofs.Rlsim.Mirror
/-! Models of rlsim documents refer to no assets, since their shapes are made of parameters alone, and their
actuators drive the joints of the tree. -/
namespace Articulation.Rlsim

open Session (Grows Quiet)

variable {document : Document} {up : UpAxis} {a : Assets}

theorem resolved_solid (keyword : String) (p : Vec3) : (Geometry.solid keyword p).Resolved a := by
  unfold Geometry.solid
  split <;> exact Shape.resolved_ofSize _ _ _

theorem resolved_drawn (d : DrawableDefinition) : (drawn up d).Resolved a :=
  ⟨(resolved_solid _ _).placed _, fun _ named => (nomatch named)⟩

theorem resolved_linkAt (d : JointDefinition × Nat) : (linkAt document up d).Resolved a := by
  refine ⟨fun c member => ?_, fun _ member => (nomatch member)⟩
  obtain ⟨definition, _, rfl⟩ := List.mem_map.mp member
  rw [(isColliderOf_definedCollider up definition).shape.unique]
  exact (resolved_solid _ _).placed _

theorem resolved_bodyAt (d : JointDefinition × Nat) : (bodyAt document up d).link.Resolved a := by
  refine ⟨(resolved_linkAt d).colliders, fun drawable member => ?_⟩
  obtain ⟨definition, _, rfl⟩ := List.mem_map.mp member
  exact resolved_drawn definition

theorem quiet_colliders (d : Option BodyDefinition) : Quiet (colliders up d) := by
  cases d with
  | none => exact .pure _
  | some d => exact .bind (.of_onlyReports (Geometry.onlyReports_ofParameters _ _ _)) fun _ => .pure _

theorem quiet_parts (document : Document) (up : UpAxis) : Quiet (parts document up) := by
  refine .bind (.mapM fun d => .bind (quiet_colliders _) fun _ => .pure _) fun _ => .bind (.mapM fun d => ?_)
    fun _ => .pure _
  exact .bind (.of_onlyReports (Geometry.onlyReports_ofParameters _ _ _)) fun _ => .pure _

/-- A document that compiles refers to nothing that the model lacks. -/
theorem closed_of_build {surroundings : Surroundings} {robot : Robot}
    (built : build surroundings document = .ok robot) : robot.Closed := by
  unfold build at built
  dsimp only at built
  split at built
  · contradiction
  · obtain ⟨ps, linked, built⟩ := bind_eq_ok.mp built
    obtain ⟨js, drawnOn, built⟩ := bind_eq_ok.mp built
    split at built
    rename_i links drawables session run
    have fresh := ((quiet_parts _ _).run run).exclusions
    have same := @parts_fst (upAxis surroundings.settings.rlsim document) document .start
    rw [run] at same
    cases same
    rw [bodies_eq (parents_eq_ok linked) (drawableJoints_eq_ok drawnOn)] at built
    refine Assembly.closed_of_finished (actuators surroundings.settings.rlsim document)
      (childless_bodiesAt _ _) fresh ?_ (fun _ => Assembly.resolved_actuated fun _ => rfl) built
    intro body member
    obtain ⟨d, _, rfl⟩ := List.mem_map.mp member
    exact resolved_bodyAt d

end Articulation.Rlsim
