import Articulation.Load
import Articulation.Proofs.Location.Mjcf
import Articulation.Proofs.Location.Urdf
import Articulation.Proofs.Rlsim.Mirror
/-! Documents at two places. Where a document stands shows in the paths of files and in the name of a model
that declares none, and nowhere else. -/
namespace Articulation

variable {here there : Surroundings}

theorem Rlsim.build_anywhere (elsewhere : here.Elsewhere there) (document : Document) :
    anywhere none (build here document) = anywhere none (build there document) := by
  unfold build
  dsimp only
  rw [elsewhere.settings]
  split
  · rfl
  refine anywhere_bind fun ps => anywhere_bind fun js => ?_
  refine Assembly.finished_anywhere (.refl _) rfl (nameAnywhere_modelName here there none "rlsim") _
    fun t u trees => ?_
  rw [actuators, actuators, Linkage.actuatedJoints_anywhere trees]

/-- The name that a document declares for its model, if it does. -/
def ElementTree.declaredName? (tree : ElementTree) : Option String :=
  match tree.schema.kind with
  | .mjcf => tree.root.own.string? "model"
  | .urdf => tree.root.own.string? "name"

theorem Surroundings.Elsewhere.validate (elsewhere : here.Elsewhere there) :
    there.settings.validate = here.settings.validate := by
  rw [elsewhere.settings]
  rfl

/-- Where a document stands, and what it is called there, makes no difference but for the paths of files and
for a name that the document does not declare itself: at two places it compiles to the same model, or fails
with the same error. -/
theorem compile_elsewhere (elsewhere : here.Elsewhere there) :
    (∀ tree : ElementTree, anywhere tree.declaredName? (compileTree here tree) =
      anywhere tree.declaredName? (compileTree there tree)) ∧
    ∀ text, anywhere none (compileText here .rlsim text) = anywhere none (compileText there .rlsim text) := by
  constructor
  · intro tree
    rw [compileTree, compileTree, elsewhere.validate, ElementTree.declaredName?]
    refine anywhere_bind fun _ => ?_
    cases tree.schema.kind with
    | mjcf => exact Mjcf.compile_anywhere elsewhere tree.root
    | urdf => exact Urdf.compile_anywhere elsewhere tree.root
  · intro text
    rw [compileText, compileText, elsewhere.validate]
    refine anywhere_bind fun _ => ?_
    rw [Rlsim.compile, Rlsim.compile]
    split
    · exact Rlsim.build_anywhere elsewhere _
    · rfl

/-- A document without a name, with a mesh that a geom carries. -/
def meshedArm : ElementTree :=
  .ofElement Schema.mjcf (Mjcf.element "mujoco" [] [
    Mjcf.element "asset" [] [Mjcf.element "mesh" [("name", "upper"), ("file", "arm.stl")] []],
    Mjcf.element "worldbody" [] [Mjcf.element "body" [("name", "arm")]
      [Mjcf.element "geom" [("type", "mesh"), ("mesh", "upper")] []]]])

def besideRobots : Surroundings := ⟨.standard, some "robots", none, some "lifter"⟩

def besideStore : Surroundings :=
  ⟨{ Settings.standard with mjcf := { MjcfSettings.standard with meshDirectory := some "meshes" } },
    some "store", none, none⟩

def nameAndMeshes (robot : Robot) : String × List String := (robot.name, robot.meshes.map Mesh.id)

theorem compile_elsewhere_arm :
    ∃ robot other, compileTree besideRobots meshedArm = .ok robot ∧
      compileTree besideStore meshedArm = .ok other ∧
      nameAndMeshes robot = ("lifter", ["upper"]) ∧ nameAndMeshes other = ("mjcf", ["upper"]) ∧
      robot.anywhere none = other.anywhere none := by
  have first : nameAndMeshes <$> compileTree besideRobots meshedArm = .ok ("lifter", ["upper"]) := by
    decide +kernel
  have second : nameAndMeshes <$> compileTree besideStore meshedArm = .ok ("mjcf", ["upper"]) := by
    decide +kernel
  obtain ⟨robot, compiled, meshes⟩ := map_eq_ok.mp first
  obtain ⟨other, also, others⟩ := map_eq_ok.mp second
  have unnamed : meshedArm.declaredName? = none := by decide +kernel
  have same := (@compile_elsewhere besideRobots besideStore ⟨rfl⟩).1 meshedArm
  rw [compiled, also, unnamed] at same
  exact ⟨robot, other, compiled, also, meshes, others, Except.ok.inj same⟩

end Articulation
