import Articulation.Proofs.Session
import Articulation.Robot
/-! What it means that shapes, drawables and actuators refer only to what is there. Assets stay once they
are registered, and diagnostics once they are reported, so a resolved reference stays resolved. -/
namespace Articulation

/-- A mesh or heightfield that the shape carries is the registered one of its id. -/
structure Shape.Resolved (a : Assets) (shape : Shape) : Prop where
  mesh : ∀ mesh, shape.mesh = some mesh → a.meshes.find? mesh.id = some mesh
  heightfield : ∀ grid, shape.heightfield = some grid → a.heightfields.find? grid.id = some grid

/-- A material that the drawable names is registered, and its shape is resolved. -/
structure Drawable.Resolved (a : Assets) (d : Drawable) : Prop where
  shape : d.shape.Resolved a
  material : ∀ name, d.material = some name → ∃ material, a.materials.find? name = some material

structure Link.Resolved (a : Assets) (link : Link) : Prop where
  colliders : ∀ c ∈ link.colliders, c.shape.Resolved a
  drawables : ∀ d ∈ link.drawables, d.Resolved a

def Body.Resolved (a : Assets) (body : Body) : Prop := ∀ link ∈ body.preorder, link.Resolved a

section

variable {a b : Assets} {shape : Shape}

theorem Shape.Resolved.mono (resolved : shape.Resolved a) (extended : a.Extends b) : shape.Resolved b :=
  ⟨fun mesh carried => extended.meshes _ _ (resolved.mesh mesh carried),
    fun grid carried => extended.heightfields _ _ (resolved.heightfield grid carried)⟩

theorem Drawable.Resolved.mono {d : Drawable} (resolved : d.Resolved a) (extended : a.Extends b) :
    d.Resolved b := by
  refine ⟨resolved.shape.mono extended, fun name named => ?_⟩
  obtain ⟨material, found⟩ := resolved.material name named
  exact ⟨material, extended.materials _ _ found⟩

theorem Link.Resolved.mono {link : Link} (resolved : link.Resolved a) (extended : a.Extends b) :
    link.Resolved b :=
  ⟨fun c member => (resolved.colliders c member).mono extended,
    fun d member => (resolved.drawables d member).mono extended⟩

/-- Whatever shape is on the link, on a collider or on a drawable. -/
theorem Link.Resolved.shapes {link : Link} (resolved : link.Resolved a)
    (listed : shape ∈ link.colliders.map Collider.shape ++ link.drawables.map Drawable.shape) :
    shape.Resolved a := by
  rcases List.mem_append.mp listed with listed | listed
  · obtain ⟨c, member, rfl⟩ := List.mem_map.mp listed
    exact resolved.colliders c member
  · obtain ⟨d, member, rfl⟩ := List.mem_map.mp listed
    exact (resolved.drawables d member).shape

theorem Body.Resolved.mono {body : Body} (resolved : body.Resolved a) (extended : a.Extends b) :
    body.Resolved b :=
  fun link member => (resolved link member).mono extended

theorem Body.resolved_iff {body : Body} :
    body.Resolved a ↔ body.link.Resolved a ∧ ∀ child ∈ body.children, Body.Resolved a child := by
  unfold Body.Resolved
  rw [Rose.preorder_eq, List.forall_mem_cons]
  refine and_congr_right fun _ => ⟨fun all child member link inside => ?_, fun each link inside => ?_⟩
  · exact all link (List.mem_flatMap.mpr ⟨child, member, inside⟩)
  · obtain ⟨child, member, inside⟩ := List.mem_flatMap.mp inside
    exact each child member link inside

/-- Frames carry no references. -/
theorem Shape.Resolved.placed (resolved : shape.Resolved a) (pose : Pose) :
    (shape.placed pose).Resolved a :=
  ⟨resolved.mesh, resolved.heightfield⟩

theorem Shape.resolved_ofSize (a : Assets) (kind : ShapeKind) (size : Vec3) :
    (Shape.ofSize kind size).Resolved a :=
  ⟨fun _ carried => (nomatch carried), fun _ carried => (nomatch carried)⟩

theorem Shape.resolved_meshed {mesh : Mesh} (registered : a.meshes.find? mesh.id = some mesh)
    (kind : ShapeKind) (size : Vec3) :
    Shape.Resolved a { Shape.ofSize kind size with mesh := some mesh } := by
  refine ⟨fun other carried => ?_, fun _ carried => (nomatch carried)⟩
  cases carried
  exact registered

theorem Shape.resolved_gridded {grid : Heightfield} (registered : a.heightfields.find? grid.id = some grid)
    (kind : ShapeKind) (size : Vec3) :
    Shape.Resolved a { Shape.ofSize kind size with heightfield := some grid } := by
  refine ⟨fun _ carried => (nomatch carried), fun other carried => ?_⟩
  cases carried
  exact registered

theorem Drawable.resolved_ofShape (name : String) (resolved : shape.Resolved a) :
    (Drawable.ofShape name shape).Resolved a :=
  ⟨resolved, fun _ named => nomatch named⟩

theorem Drawable.Resolved.painted {d : Drawable} (resolved : d.Resolved a) {material : Material}
    {name : String} (found : a.materials.find? name = some material) :
    (d.painted material).Resolved a := by
  refine ⟨resolved.shape, fun other named => ?_⟩
  cases named
  exact ⟨material, Catalog.key_of_find? found ▸ found⟩

end

/-- The joint that the actuator drives is in the tree; if it drives none, a diagnostic names it. -/
structure Actuator.Resolved (linkage : Linkage) (diagnostics : List Diagnostic) (a : Actuator) : Prop where
  driven : ∀ name, a.joint = some name → (linkage.joint? name).isSome = true
  loose : a.joint = none → ∃ target, .unresolvedReference a.name "joint" target ∈ diagnostics

theorem Actuator.Resolved.mono {linkage : Linkage} {before after : List Diagnostic} {a : Actuator}
    (resolved : a.Resolved linkage before) (grown : before <+: after) : a.Resolved linkage after := by
  refine ⟨resolved.driven, fun none => ?_⟩
  obtain ⟨target, reported⟩ := resolved.loose none
  exact ⟨target, grown.subset reported⟩

end Articulation
