import Articulation.Load.Error
import Articulation.Proofs.Body.Numbering
import Articulation.Session
/-! What a model and an error say apart from the place of the document: without the paths of files, and
without a name that the document does not declare. Whether there is a file stays visible, where it is does
not; finishing a tree neither reads nor changes it. -/
namespace Articulation

/-- The two surroundings are alike but for the place of the document: for directories, for whether paths are
resolved, and for the hint at a name. -/
structure Surroundings.Elsewhere (here there : Surroundings) : Prop where
  settings : there.settings = { here.settings with
    mjcf := { here.settings.mjcf with meshDirectory := there.settings.mjcf.meshDirectory }
    assets := { here.settings.assets with resolvePaths := there.settings.assets.resolvePaths } }

/-! ### Files -/

def Mesh.withoutFile (mesh : Mesh) : Mesh := { mesh with file := "" }

def Heightfield.withoutFile (grid : Heightfield) : Heightfield :=
  { grid with file := grid.file.map fun _ => "" }

def Shape.withoutFiles (shape : Shape) : Shape :=
  { shape with
    mesh := shape.mesh.map Mesh.withoutFile
    heightfield := shape.heightfield.map Heightfield.withoutFile }

def Collider.withoutFiles (c : Collider) : Collider := { c with shape := c.shape.withoutFiles }

def Drawable.withoutFiles (d : Drawable) : Drawable := { d with shape := d.shape.withoutFiles }

def Link.withoutFiles (link : Link) : Link :=
  { link with
    colliders := link.colliders.map Collider.withoutFiles
    drawables := link.drawables.map Drawable.withoutFiles }

def Body.withoutFiles (body : Body) : Body := body.map Link.withoutFiles

def Linkage.withoutFiles (t : Linkage) : Linkage := { t with root := t.root.withoutFiles }

def Robot.withoutFiles (robot : Robot) : Robot :=
  { robot with
    linkage := robot.linkage.withoutFiles
    meshes := robot.meshes.map Mesh.withoutFile
    heightfields := robot.heightfields.map Heightfield.withoutFile }

theorem Body.withoutFiles_node (link : Link) (children : List Body) :
    withoutFiles (.node link children) = .node link.withoutFiles (children.map withoutFiles) :=
  congrArg (Rose.node _) (Rose.mapAll_eq _ children)

namespace Linkage

theorem withoutFiles_ofBody (tree : Body) : (ofBody tree).withoutFiles = ofBody tree.withoutFiles := by
  have numbered := Body.number_map (f := Link.withoutFiles) (g := Link.withoutFiles) (fun _ _ _ => rfl) tree none 0
  have chained := Body.propagate_map (f := Link.withoutFiles) (fun _ => rfl) (fun _ _ => rfl)
    (tree.number none 0).1 .identity
  have root : (ofBody tree).root.withoutFiles = (ofBody tree.withoutFiles).root :=
    calc ((tree.number none 0).1.propagate .identity).map Link.withoutFiles
        = Body.propagate .identity ((tree.number none 0).1.map Link.withoutFiles) := chained.symm
      _ = (tree.withoutFiles.number none 0).1.propagate .identity := by
        rw [Body.withoutFiles, numbered]
  have size : (ofBody tree).size = (ofBody tree.withoutFiles).size := (congrArg Prod.snd numbered).symm
  rw [withoutFiles, root, size]

/-- Joints refer to no files. -/
theorem actuatedJoints_withoutFiles (t : Linkage) :
    t.withoutFiles.actuatedJoints = t.actuatedJoints := by
  have joints (t : Linkage) : t.joints.map (·.2) = t.bodies.flatMap fun body => body.value.joints := by
    rw [Linkage.joints, List.map_flatMap]
    refine congrArg List.flatten (List.map_congr_left fun body _ => ?_)
    rw [List.map_map]
    exact List.map_id _
  have bodies : t.withoutFiles.bodies = t.bodies.map Body.withoutFiles := by
    rw [Linkage.bodies, Linkage.bodies, Body.bodies_eq, Body.bodies_eq]
    exact Rose.subtrees_map _ _
  rw [actuatedJoints, actuatedJoints, joints, joints, bodies, List.flatMap_map]
  refine congrArg (fun lists => List.filter _ (List.flatten lists)) (List.map_congr_left fun body _ => ?_)
  rw [Body.withoutFiles, Rose.value_map]
  rfl

theorem actuatedJoints_anywhere {t u : Linkage} (same : t.withoutFiles = u.withoutFiles) :
    t.actuatedJoints = u.actuatedJoints := by
  rw [← t.actuatedJoints_withoutFiles, same, u.actuatedJoints_withoutFiles]

end Linkage

/-! ### Names -/

/-- A name that is the same everywhere: none, if the document declares none. -/
def nameAnywhere (declared : Option String) (name : String) : String :=
  if declared.isSome then name else ""

theorem nameAnywhere_modelName (here there : Surroundings) (declared : Option String) (fallback : String) :
    nameAnywhere declared (here.modelName declared fallback) =
      nameAnywhere declared (there.modelName declared fallback) := by
  cases declared with
  | none => rfl
  | some name => rfl

def Robot.anywhere (declared : Option String) (robot : Robot) : Robot :=
  { robot.withoutFiles with name := nameAnywhere declared robot.name }

def Container.anywhere (declared : Option String) : Container → Container
  | model name => model (nameAnywhere declared name)
  | worldBody name => worldBody (nameAnywhere declared name)
  | container => container

def LoadError.anywhere (declared : Option String) : LoadError → LoadError
  | missingElement element container => missingElement element (container.anywhere declared)
  | e => e

/-- What a compilation gives, whatever the place of the document. -/
def anywhere (declared : Option String) (outcome : Except LoadError Robot) : Except LoadError Robot :=
  (outcome.map (Robot.anywhere declared)).mapError (LoadError.anywhere declared)

theorem anywhere_bind {α : Type} {declared : Option String} {x : Except LoadError α}
    {f g : α → Except LoadError Robot} (same : ∀ a, anywhere declared (f a) = anywhere declared (g a)) :
    anywhere declared (x >>= f) = anywhere declared (x >>= g) := by
  cases x with
  | error e => rfl
  | ok a => exact same a

end Articulation
