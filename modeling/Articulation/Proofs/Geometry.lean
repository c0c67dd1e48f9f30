import Articulation.Proofs.Resolved
/-! Shapes as the dialects write them. Making one adds assets and diagnostics to the session, and whatever
the shape carries is registered by then. -/
namespace Articulation

namespace Geometry

/-! ### Shapes from attributes -/

open Session (Grows OnlyReports Quiet)

variable {surroundings : Surroundings} {label : String} {s t : Session}

section

variable (label : String) (sizes : List Float32)

theorem onlyReports_planeSize : OnlyReports (planeSize label sizes) := by
  unfold planeSize
  split
  · exact .instead _ _ _
  · exact .pure _
  · exact .pure _

theorem onlyReports_sphereRadius : OnlyReports (sphereRadius label sizes) := by
  unfold sphereRadius
  split
  · exact .instead _ _ _
  · exact .pure _
  · exact .instead _ _ _

theorem onlyReports_boxSize : OnlyReports (boxSize label sizes) := by
  unfold boxSize
  split
  · exact .pure _
  · exact .instead _ _ _

theorem onlyReports_ellipsoidSize : OnlyReports (ellipsoidSize label sizes) := by
  unfold ellipsoidSize
  split
  · exact .pure _
  · exact .instead _ _ _

theorem onlyReports_tubeSize (kind : ShapeKind) : OnlyReports (tubeSize kind label sizes) := by
  unfold tubeSize
  split
  · exact .pure _
  · exact .instead _ _ _

theorem onlyReports_segment (kind : ShapeKind) (ends : List Float32) :
    OnlyReports (segment kind label ends sizes) := by
  unfold segment
  split
  · dsimp only
    split
    · exact .bind (.pure _) fun _ => .pure _
    · exact .bind (.instead _ _ _) fun _ => .pure _
  · exact .instead _ _ _

end

/-- A shape that is made of sizes alone carries no asset. -/
theorem run_ofSize {α : Type} {m : StateM Session α} (only : OnlyReports m) {kind : ShapeKind}
    {size : α → Vec3} {shape : Shape} (run : ((fun x => Shape.ofSize kind (size x)) <$> m).run s = (shape, t)) :
    Grows s t [] ∧ shape.Resolved t.assets := by
  obtain ⟨x, sized, rfl⟩ := run_map.mp run
  exact ⟨(Quiet.of_onlyReports only).run sized, Shape.resolved_ofSize _ _ _⟩

theorem run_instead {m : Misfit} {value shape : Shape} (plain : ∀ a, value.Resolved a)
    (run : (instead label m value).run s = (shape, t)) : Grows s t [] ∧ shape.Resolved t.assets := by
  have grows := (Quiet.instead label m value).run run
  cases run
  exact ⟨grows, plain _⟩

theorem run_segment {kind : ShapeKind} {ends sizes : List Float32} {shape : Shape}
    (run : (segment kind label ends sizes).run s = (shape, t)) :
    Grows s t [] ∧ shape.Resolved t.assets := by
  have carriesNone (size : Vec3) (pose : Pose) : Shape.Resolved t.assets
      { (Shape.ofSize kind size).placed pose with fromSegment := true } :=
    ⟨fun _ carried => (nomatch carried), fun _ carried => (nomatch carried)⟩
  unfold segment at run
  split at run
  · dsimp only at run
    split at run
    · obtain ⟨rfl, rfl⟩ := run_pure.mp run
      exact ⟨.refl _, carriesNone _ _⟩
    · obtain ⟨radius, u, measured, run⟩ := run_bind.mp run
      obtain ⟨rfl, rfl⟩ := run_pure.mp run
      exact ⟨(Quiet.instead _ _ _).run measured, carriesNone _ _⟩
  · exact run_instead (fun a => Shape.resolved_ofSize a kind _) run

theorem run_ofKind {scope : Scope} {kind : ShapeKind} {shape : Shape}
    (run : (ofKind surroundings scope label kind).run s = (shape, t)) :
    Grows s t [] ∧ shape.Resolved t.assets := by
  cases kind with
  | plane => exact run_ofSize (onlyReports_planeSize _ _) run
  | sphere => exact run_ofSize (onlyReports_sphereRadius _ _) run
  | box => exact run_ofSize (onlyReports_boxSize _ _) run
  | ellipsoid => exact run_ofSize (onlyReports_ellipsoidSize _ _) run
  | cylinder | capsule =>
    dsimp only [ofKind] at run
    split at run
    · exact run_segment run
    · exact run_ofSize (onlyReports_tubeSize _ _ _) run
  | mesh =>
    dsimp only [ofKind] at run
    split at run
    · obtain ⟨mesh, u, found, run⟩ := run_bind.mp run
      obtain ⟨rfl, rfl⟩ := run_pure.mp run
      obtain ⟨grows, registered⟩ := Session.run_mesh found
      exact ⟨grows, Shape.resolved_meshed registered _ _⟩
    · exact run_instead (fun a => Shape.resolved_ofSize a _ _) run
  | heightfield =>
    obtain ⟨_, u, got, run⟩ := run_bind.mp run
    cases got
    split at run
    · rename_i grid found
      obtain ⟨rfl, rfl⟩ := run_pure.mp run
      exact ⟨.refl _, Shape.resolved_gridded (Catalog.key_of_find? found ▸ found) _ _⟩
    · obtain ⟨_, u, reported, run⟩ := run_bind.mp run
      obtain ⟨rfl, rfl⟩ := run_pure.mp run
      exact ⟨(Quiet.report _).run reported, Shape.resolved_ofSize _ _ _⟩

theorem onlyReports_kindOf (label keyword : String) : OnlyReports (kindOf label keyword) := by
  unfold kindOf
  split
  · exact .pure _
  · exact .instead _ _ _

/-- A geom's shape carries registered assets only. -/
theorem run_ofGeom {scope : Scope} {shape : Shape}
    (run : (ofGeom surroundings scope).run s = (shape, t)) : Grows s t [] ∧ shape.Resolved t.assets := by
  obtain ⟨kind, u, chosen, run⟩ := run_bind.mp run
  obtain ⟨grows, resolved⟩ := run_ofKind run
  exact ⟨((Quiet.of_onlyReports (onlyReports_kindOf _ _)).run chosen).trans grows, resolved⟩

/-! ### Shapes from elements -/

theorem onlyReports_tube (label : String) (kind : ShapeKind) (e : Element) :
    OnlyReports (tube label kind e) := by
  unfold tube
  split
  · exact .pure _
  · exact .instead _ _ _

theorem run_tube {kind : ShapeKind} {e : Element} {shape : Shape}
    (run : (tube label kind e).run s = (shape, t)) : Grows s t [] ∧ shape.Resolved t.assets := by
  unfold tube at run
  split at run
  · obtain ⟨rfl, rfl⟩ := run_pure.mp run
    exact ⟨.refl _, Shape.resolved_ofSize _ _ _⟩
  · exact run_instead (fun a => Shape.resolved_ofSize a _ _) run

/-- A shape that may be missing, from a shape. -/
theorem run_some {m : StateM Session Shape} {found : Option Shape}
    (each : ∀ {shape}, m.run s = (shape, t) → Grows s t [] ∧ shape.Resolved t.assets)
    (run : (some <$> m).run s = (found, t)) :
    Grows s t [] ∧ ∀ shape, found = some shape → shape.Resolved t.assets := by
  obtain ⟨shape, made, rfl⟩ := run_map.mp run
  obtain ⟨grows, resolved⟩ := each made
  exact ⟨grows, fun other same => Option.some.inj same ▸ resolved⟩

/-- A shape of given sizes, or none, carries no asset. -/
theorem run_pureSize {kind : ShapeKind} {size : Vec3} {found : Option Shape}
    (run : (pure (some (Shape.ofSize kind size)) : StateM Session (Option Shape)).run s = (found, t)) :
    Grows s t [] ∧ ∀ shape, found = some shape → shape.Resolved t.assets := by
  obtain ⟨rfl, rfl⟩ := run_pure.mp run
  exact ⟨.refl _, fun shape same => Option.some.inj same ▸ Shape.resolved_ofSize _ _ _⟩

theorem run_insteadSize {m : Misfit} {kind : ShapeKind} {size : Vec3} {found : Option Shape}
    (run : (instead label m (some (Shape.ofSize kind size))).run s = (found, t)) :
    Grows s t [] ∧ ∀ shape, found = some shape → shape.Resolved t.assets := by
  have grows := (Quiet.instead label m _).run run
  obtain ⟨_, u, _, run⟩ := run_bind.mp run
  exact ⟨grows, (run_pureSize run).2⟩

theorem run_none {m : StateM Session (Option Shape)} {found : Option Shape} (quiet : Quiet m)
    (nothing : ∀ s, (m.run s).1 = none) (run : m.run s = (found, t)) :
    Grows s t [] ∧ ∀ shape, found = some shape → shape.Resolved t.assets := by
  have missing := nothing s
  rw [run] at missing
  cases missing
  exact ⟨quiet.run run, fun _ same => (nomatch same)⟩

theorem run_ofSolid? {e : Element} {found : Option Shape}
    (run : (ofSolid? surroundings label e).run s = (found, t)) :
    Grows s t [] ∧ ∀ shape, found = some shape → shape.Resolved t.assets := by
  unfold ofSolid? at run
  split at run
  · split at run
    · exact run_pureSize run
    · exact run_insteadSize run
  · split at run
    · exact run_pureSize run
    · exact run_insteadSize run
  · exact run_some run_tube run
  · exact run_some run_tube run
  · split at run
    · exact run_none (.instead _ _ _) (fun _ => rfl) run
    · obtain ⟨mesh, u, found, run⟩ := run_bind.mp run
      obtain ⟨rfl, rfl⟩ := run_pure.mp run
      obtain ⟨grows, registered⟩ := Session.run_mesh found
      exact ⟨grows, fun shape same => Option.some.inj same ▸ Shape.resolved_meshed registered _ _⟩
  · exact run_none (.pure _) (fun _ => rfl) run

theorem run_ofGeometry {geometry : Element} {found : Option Shape}
    (run : (do ofGeometry? surroundings label geometry).run s = (found, t)) :
    Grows s t [] ∧ ∀ shape, found = some shape → shape.Resolved t.assets := by
  unfold ofGeometry? at run
  split at run
  · exact run_none (.pure _) (fun _ => rfl) run
  · exact run_ofSolid? run

/-! ### Shapes from parameters -/

theorem onlyReports_ofParameters (keyword : String) (p : Vec3) (label : String) :
    OnlyReports (ofParameters keyword p label) := by
  unfold ofParameters
  repeat' split
  all_goals first | exact .pure _ | exact .instead _ _ _

end Geometry

end Articulation
