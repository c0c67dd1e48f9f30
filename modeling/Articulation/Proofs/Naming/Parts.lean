import Articulation.Proofs.Geometry.Fitting
import Articulation.Proofs.Mjcf.Parts
import Articulation.Proofs.Naming.Fresh
import Articulation.Proofs.Urdf.Parts
/-! What draws no names of a stem: to report, to register assets, and to draw names of other stems. So a body
draws a name of its own, and nothing that is compiled beside it draws another of its stem. -/
namespace Articulation

namespace Session

/-! ### Computations that leave a stem alone -/

variable {stem : String} {s t : Session}

/-- A computation that draws no name of the stem. -/
def Spares {α : Type} (stem : String) (m : StateM Session α) : Prop := ∀ s, SameNumber stem s (m.run s).2

namespace Spares

variable {α β : Type} {m : StateM Session α} {f : α → StateM Session β}

theorem run (spares : Spares stem m) {x : α} (run : m.run s = (x, t)) : SameNumber stem s t := by
  have same := spares s
  rwa [run] at same

theorem pure (x : α) : Spares stem (pure x) := SameNumber.refl

theorem bind (first : Spares stem m) (rest : ∀ x, Spares stem (f x)) : Spares stem (m >>= f) :=
  fun s => (first s).trans (rest _ _)

/-- What follows a search may depend on whether there is a result. -/
theorem bindOption {m : StateM Session (Option α)} {f : Option α → StateM Session β} (first : Spares stem m)
    (missing : Spares stem (f none)) (there : ∀ x, Spares stem (f (some x))) : Spares stem (m >>= f) := by
  refine bind first fun found => ?_
  cases found with
  | none => exact missing
  | some x => exact there x

theorem map {g : α → β} (spares : Spares stem m) : Spares stem (g <$> m) :=
  bind spares fun x => pure (g x)

theorem forM {xs : List α} {f : α → StateM Session Unit} (each : ∀ x, Spares stem (f x)) :
    Spares stem (xs.forM f) := by
  induction xs with
  | nil => exact pure ()
  | cons x xs ih => exact bind (each x) fun _ => ih

theorem mapM {xs : List α} (each : ∀ x, Spares stem (f x)) : Spares stem (xs.mapM f) := by
  induction xs with
  | nil => exact pure []
  | cons x xs ih =>
    rw [List.mapM_cons]
    exact bind (each x) fun _ => bind ih fun _ => pure _

theorem get : Spares stem (get : StateM Session Session) := SameNumber.refl

theorem of_onlyReports (only : OnlyReports m) : Spares stem m := by
  obtain ⟨x, reports, run⟩ := only
  intro s
  rw [run s]
  exact ⟨rfl, rfl⟩

theorem report (d : Diagnostic) : Spares stem (report d) := of_onlyReports (.report d)

theorem assets (change : Session → Assets) :
    Spares stem (modify fun s : Session => { s with assets := change s }) :=
  fun _ => ⟨rfl, rfl⟩

theorem exclude (a b : String) : Spares stem (exclude a b) := fun _ => ⟨rfl, rfl⟩

theorem mesh (surroundings : Surroundings) (reference : String) :
    Spares stem (mesh surroundings reference) :=
  fun _ => ⟨rfl, rfl⟩

theorem nameOr (declared : Option String) {other : String} (different : stem ≠ other) :
    Spares stem (nameOr declared other) := by
  cases declared with
  | none => exact fun s => sameNumber_freshName different
  | some name => exact pure name

theorem instead (label : String) (m : Misfit) (x : α) : Spares stem (Geometry.instead label m x) :=
  of_onlyReports (.instead label m x)

end Spares

end Session

open Session (Spares)

variable {stem : String} {surroundings : Surroundings}

/-! ### Shapes -/

namespace Geometry

theorem spares_ofGeom (scope : Scope) : Spares stem (ofGeom surroundings scope) := by
  refine .bind (.of_onlyReports (onlyReports_kindOf _ _)) fun kind s => ?_
  obtain ⟨shape, assets, reports, run, _⟩ := @makes_ofKind _ surroundings _ s kind
  rw [run]
  exact ⟨rfl, rfl⟩

theorem spares_ofGeometry (label : String) (geometry : Element) :
    Spares stem <| ofGeometry? surroundings label geometry := by
  unfold ofGeometry?
  split
  · exact .pure _
  · unfold ofSolid?
    repeat' split
    all_goals first
      | exact .pure _
      | exact .instead _ _ _
      | exact .map (.of_onlyReports (onlyReports_tube _ _ _))
      | exact .bind (.mesh _ _) fun _ => .pure _

end Geometry

/-! ### Parts of bodies -/

namespace Mjcf

theorem spares_assets (r : Rules) (root : Element) : Spares stem (assets r surroundings root) := by
  refine .forM fun e => ?_
  unfold asset
  split
  · unfold meshAsset
    dsimp only
    split
    · exact .report _
    · exact .assets _
  · unfold materialAsset
    split
    · exact .pure _
    · exact .assets _
  · unfold heightfieldAsset
    split
    · exact .pure _
    · dsimp only
      split
      · exact .bind (.pure _) fun _ => .assets _
      · exact .bind (.instead _ _ _) fun _ => .assets _
  · exact .pure _

theorem spares_materialOf (l : Lookup) (referrer : String) : Spares stem (materialOf l referrer) := by
  unfold materialOf
  split
  · exact .pure _
  · refine .bind .get fun s => ?_
    dsimp only
    split
    · exact .bind (.report _) fun _ => .pure _
    · exact .pure _

theorem spares_geom (different : stem ≠ "geom") (r : Rules) (inherited : Option String) (e : Element) :
    Spares stem (geom r surroundings inherited e) :=
  .bind (Geometry.spares_ofGeom _) fun _ =>
    .bind (.nameOr _ different) fun _ => .bind (spares_materialOf _ _) fun _ => .pure _

theorem spares_joint (different : stem ≠ "joint") (r : Rules) (inherited : Option String) (e : Element) :
    Spares stem (joint r inherited e) :=
  .bind (.nameOr _ different) fun _ => .pure _

theorem spares_freeJoint (different : stem ≠ "joint") (e : Element) : Spares stem (freeJoint e) :=
  .bind (.nameOr _ different) fun _ => .pure _

end Mjcf

namespace Urdf

theorem spares_declareMaterial (e : Element) : Spares stem (declareMaterial e) := by
  unfold declareMaterial
  split
  · exact .pure _
  · dsimp only
    split
    · exact .bind (.assets _) fun _ => .bind .get fun _ => .pure _
    · exact .bind .get fun _ => .pure _

theorem spares_paint (d : Drawable) (e : Element) : Spares stem (paint d e) := by
  unfold paint
  dsimp only
  split
  · exact .pure _
  · refine .bindOption (spares_declareMaterial e) ?_ fun _ => .pure _
    dsimp only
    split
    · exact .bind (.report _) fun _ => .pure _
    · exact .pure _

theorem spares_shape (label : String) (e : Element) : Spares stem (shape surroundings label e) := by
  unfold shape
  dsimp only
  split
  · exact .bindOption (.pure _) (.instead _ _ _) fun _ => .pure _
  · exact .bindOption (Geometry.spares_ofGeometry _ _) (.instead _ _ _) fun _ => .pure _

theorem spares_drawable (link : String) (e : Element) (i : Nat) :
    Spares stem (drawable surroundings link e i) := by
  refine .bindOption (spares_shape _ e) (.pure _) fun shape => ?_
  dsimp only
  split
  · exact .pure _
  · exact .map (spares_paint _ _)

theorem spares_collider (link : String) (e : Element) (i : Nat) :
    Spares stem (collider surroundings link e i) :=
  .bind (spares_shape _ e) fun _ => .pure _

end Urdf

end Articulation
