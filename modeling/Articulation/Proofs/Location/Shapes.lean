import Articulation.Proofs.Geometry
import Articulation.Proofs.Location.Steps
/-! Shapes at two places. A mesh brings its scale and a heightfield its extent, so that a shape has the same
size wherever its file lies. -/
namespace Articulation.Geometry

open Session (InStep)

variable (here there : Surroundings)

def meshShape (mesh : Mesh) : Shape := { Shape.ofSize .mesh mesh.scale with mesh := some mesh }

def gridShape (grid : Heightfield) : Shape :=
  { Shape.ofSize .heightfield ⟨grid.extent.radiusX, grid.extent.radiusY, grid.extent.elevation⟩ with
    heightfield := some grid }

theorem inStep_ofKind (scope : Scope) (label : String) (kind : ShapeKind) :
    InStep Shape.withoutFiles (ofKind here scope label kind) (ofKind there scope label kind) := by
  cases kind with
  | plane => exact .of_onlyReports (.map (onlyReports_planeSize _ _))
  | sphere => exact .of_onlyReports (.map (onlyReports_sphereRadius _ _))
  | box => exact .of_onlyReports (.map (onlyReports_boxSize _ _))
  | ellipsoid => exact .of_onlyReports (.map (onlyReports_ellipsoidSize _ _))
  | cylinder | capsule =>
    dsimp only [ofKind]
    cases scope.lookup.floatArray? "fromto" with
    | some ends => exact .of_onlyReports (onlyReports_segment _ _ _ _)
    | none => exact .of_onlyReports (.map (onlyReports_tubeSize _ _ _))
  | mesh =>
    dsimp only [ofKind]
    cases scope.lookup.string? "mesh" with
    | some reference =>
      exact (InStep.mesh here there reference).bind fun _ _ same => .pure (congrArg meshShape same)
    | none => exact .of_onlyReports (.instead _ _ _)
  | heightfield =>
    refine .reading fun s t same => ?_
    have found := Catalog.find?_alike (e := Heightfield.withoutFile) (fun _ => rfl) same.heightfields
      ((scope.lookup.string? "hfield").getD "")
    cases first : s.assets.heightfields.find? ((scope.lookup.string? "hfield").getD "") with
    | none =>
      rw [first] at found
      rw [Option.map_eq_none_iff.mp found.symm]
      exact .of_onlyReports (.bind (.report _) fun _ => .pure _)
    | some grid =>
      rw [first] at found
      obtain ⟨other, second, alike⟩ := Option.map_eq_some_iff.mp found.symm
      rw [second]
      exact .pure (congrArg gridShape alike.symm)

theorem inStep_ofGeom (scope : Scope) :
    InStep Shape.withoutFiles (ofGeom here scope) (ofGeom there scope) :=
  .bind_same (.of_onlyReports (onlyReports_kindOf _ _)) (inStep_ofKind here there scope _)

theorem inStep_ofSolid? (label : String) (e : Element) :
    InStep (Option.map Shape.withoutFiles) (ofSolid? here label e) (ofSolid? there label e) := by
  unfold ofSolid?
  split
  · split
    · exact .of_onlyReports (.pure _)
    · exact .of_onlyReports (.instead _ _ _)
  · split
    · exact .of_onlyReports (.pure _)
    · exact .of_onlyReports (.instead _ _ _)
  · exact .of_onlyReports (.map (onlyReports_tube _ _ _))
  · exact .of_onlyReports (.map (onlyReports_tube _ _ _))
  · split
    · exact .of_onlyReports (.instead _ _ _)
    · refine (InStep.mesh here there _).bind fun _ _ same => .pure ?_
      exact congrArg (fun mesh => some { Shape.ofSize .mesh _ with mesh := some mesh : Shape }) same
  · exact .of_onlyReports (.pure _)

theorem inStep_ofGeometry (label : String) (geometry : Element) :
    InStep (Option.map Shape.withoutFiles) (do ofGeometry? here label geometry)
      (do ofGeometry? there label geometry) := by
  unfold ofGeometry?
  split
  · exact .of_onlyReports (.pure _)
  · exact inStep_ofSolid? here there label _

end Articulation.Geometry
