import Articulation.Mjcf
import Articulation.Proofs.Body.Names
import Articulation.Proofs.Geometry
/-! What compiling each part of a document adds to the session: assets, and diagnostics, but no
exclusions, which come from bodies and contact elements alone. Names that are declared are kept, and all
that a geom refers to is registered. -/
namespace Articulation.Mjcf

open Session (Grows OnlyReports Quiet)

variable {r : Rules} {surroundings : Surroundings} {inherited : Option String} {e : Element}
  {s t : Session}

/-! ### Assets -/

theorem quiet_meshAsset (r : Rules) (surroundings : Surroundings) (e : Element) :
    Quiet (meshAsset r surroundings e) := by
  unfold meshAsset
  dsimp only
  split
  · exact .misfit _ _
  · exact .addAssets fun a => a.extends_addMesh _

theorem quiet_materialAsset (r : Rules) (e : Element) : Quiet (materialAsset r e) := by
  unfold materialAsset
  split
  · exact .pure _
  · exact .addAssets fun a => a.extends_addMaterial _

theorem quiet_heightfieldAsset (surroundings : Surroundings) (e : Element) :
    Quiet (heightfieldAsset surroundings e) := by
  unfold heightfieldAsset
  split
  · exact .pure _
  · dsimp only
    split
    · exact .bind (.pure _) fun _ => .addAssets fun a => a.extends_addHeightfield _
    · exact .bind (.instead _ _ _) fun _ => .addAssets fun a => a.extends_addHeightfield _

theorem quiet_assets (r : Rules) (surroundings : Surroundings) (root : Element) :
    Quiet (assets r surroundings root) := by
  refine .forM fun e _ => ?_
  unfold asset
  split
  · exact quiet_meshAsset r surroundings e
  · exact quiet_materialAsset r e
  · exact quiet_heightfieldAsset surroundings e
  · exact .pure _

/-! ### Parts of a body -/

theorem quiet_freeJoint (e : Element) : Quiet (freeJoint e) :=
  .bind (.nameOr _ _) fun _ => .pure _

theorem quiet_joint (r : Rules) (inherited : Option String) (e : Element) : Quiet (joint r inherited e) :=
  .bind (.nameOr _ _) fun _ => .pure _

theorem onlyReports_inertial (r : Rules) (name : String) (e : Element) :
    OnlyReports (inertial r name e) := by
  unfold inertial
  dsimp only
  split
  · exact .bind (.pure _) fun _ => .pure _
  · split
    · exact .bind (.pure _) fun _ => .pure _
    · exact .bind (.instead _ _ _) fun _ => .pure _

theorem run_materialOf {l : Lookup} {referrer : String} {found : Option Material}
    (run : (materialOf l referrer).run s = (found, t)) :
    Grows s t [] ∧
      ∀ material, found = some material → t.assets.materials.find? material.name = some material := by
  unfold materialOf at run
  split at run
  · obtain ⟨rfl, rfl⟩ := run_pure.mp run
    exact ⟨.refl _, fun _ chosen => nomatch chosen⟩
  · obtain ⟨_, u, got, run⟩ := run_bind.mp run
    cases got
    dsimp only at run
    split at run
    · rename_i missing
      obtain ⟨_, v, reported, run⟩ := run_bind.mp run
      obtain ⟨rfl, rfl⟩ := run_pure.mp run
      refine ⟨(Quiet.report _).run reported, fun material chosen => ?_⟩
      rw [chosen] at missing
      contradiction
    · obtain ⟨rfl, rfl⟩ := run_pure.mp run
      refine ⟨.refl _, fun material chosen => ?_⟩
      rw [Catalog.key_of_find? chosen]
      exact chosen

theorem resolved_paint {a : Assets} {scope : Scope} {found : Option Material} {d : Drawable}
    (resolved : d.Resolved a)
    (registered : ∀ material, found = some material → a.materials.find? material.name = some material) :
    (paint scope found d).Resolved a := by
  unfold paint
  split
  · refine ⟨resolved.shape, fun name named => ?_⟩
    obtain ⟨material, chosen, rfl⟩ := Option.map_eq_some_iff.mp named
    exact ⟨material, registered material chosen⟩
  · split
    · exact resolved.painted (registered _ rfl)
    · split
      · exact ⟨resolved.shape, resolved.material⟩
      · exact resolved

/-- The two sides of a geom have one name, which is the declared one if there is one, and one shape, and
they refer to nothing that is not registered. -/
structure Sides (e : Element) (a : Assets) (sides : Collider × Drawable) : Prop where
  named : ∀ name, e.name? = some name → sides.1.name = name
  name : sides.1.name = sides.2.name
  shape : sides.1.shape = sides.2.shape
  collider : sides.1.shape.Resolved a
  drawable : sides.2.Resolved a

theorem paint_eq (scope : Scope) (found : Option Material) (d : Drawable) :
    (paint scope found d).name = d.name ∧ (paint scope found d).shape = d.shape := by
  unfold paint
  repeat' split
  all_goals exact ⟨rfl, rfl⟩

theorem run_geom {sides : Collider × Drawable}
    (run : (geom r surroundings inherited e).run s = (sides, t)) :
    Grows s t [] ∧ Sides e t.assets sides := by
  obtain ⟨shape, u, shaped, run⟩ := run_bind.mp run
  obtain ⟨name, v, named, run⟩ := run_bind.mp run
  obtain ⟨material, w, found, run⟩ := run_bind.mp run
  obtain ⟨rfl, rfl⟩ := run_pure.mp run
  obtain ⟨first, resolved⟩ := Geometry.run_ofGeom shaped
  have second := (Quiet.nameOr _ _).run named
  obtain ⟨third, registered⟩ := run_materialOf found
  have shapes := resolved.mono (second.trans third).assets
  have placed (pose : Pose) :
      (if shape.fromSegment then shape else shape.placed pose).Resolved t.assets := by
    split
    · exact shapes
    · exact shapes.placed pose
  have painted := paint_eq (r.scope inherited e) material
  refine ⟨first.trans (second.trans third), ⟨?_, (painted (.ofShape name _)).1.symm,
    (painted (.ofShape name _)).2.symm, placed _, ?_⟩⟩
  · exact fun given declared => Session.nameOr_declared named declared
  · exact resolved_paint (Drawable.resolved_ofShape name (placed _)) registered

theorem run_joint {j : Joint} (run : (joint r inherited e).run s = (j, t)) {name : String}
    (declared : e.name? = some name) : j.name = name := by
  obtain ⟨given, u, named, run⟩ := run_bind.mp run
  obtain ⟨rfl, rfl⟩ := run_pure.mp run
  exact Session.nameOr_declared named declared

theorem run_freeJoint {j : Joint} (run : (freeJoint e).run s = (j, t)) {name : String}
    (declared : e.name? = some name) : j.name = name := by
  obtain ⟨given, u, named, run⟩ := run_bind.mp run
  obtain ⟨rfl, rfl⟩ := run_pure.mp run
  exact Session.nameOr_declared named declared

/-! ### Actuators and contacts -/

variable {linkage : Linkage}

theorem run_target {referrer : String} {reference joint : Option String}
    (run : (target linkage referrer reference).run s = (joint, t)) :
    Grows s t [] ∧ (∀ name, joint = some name → (linkage.joint? name).isSome = true) ∧
      (joint = none → ∃ name, .unresolvedReference referrer "joint" name ∈ t.diagnostics) := by
  unfold target at run
  split at run
  · rename_i name found
    obtain ⟨rfl, rfl⟩ := run_pure.mp run
    refine ⟨.refl _, fun other same => ?_, fun none => (nomatch none)⟩
    cases same
    exact (Option.filter_eq_some_iff.mp found).2
  · obtain ⟨_, u, reported, run⟩ := run_bind.mp run
    obtain ⟨rfl, rfl⟩ := run_pure.mp run
    refine ⟨(Quiet.report _).run reported, fun _ same => (nomatch same), fun _ => ?_⟩
    cases reported
    exact ⟨_, List.mem_append_right _ List.mem_cons_self⟩

theorem run_actuator {kind : ActuatorKind} {a : Actuator}
    (run : (actuator r linkage kind e).run s = (a, t)) :
    Grows s t [] ∧ a.Resolved linkage t.diagnostics ∧ a.kind = kind ∧
      ∀ name, e.name? = some name → a.name = name := by
  obtain ⟨name, u, named, run⟩ := run_bind.mp run
  obtain ⟨joint, v, aimed, run⟩ := run_bind.mp run
  obtain ⟨rfl, rfl⟩ := run_pure.mp run
  obtain ⟨grows, driven, loose⟩ := run_target aimed
  refine ⟨((Quiet.nameOr _ _).run named).trans grows, ⟨driven, loose⟩, rfl, fun given declared => ?_⟩
  exact Session.nameOr_declared named (by rw [declared, Option.some_or])

/-- The contacts that an element excludes: those between two bodies that the tree both has. -/
def excludedPair? (linkage : Linkage) (e : Element) : Option (String × String) :=
  match e.own.string? "body1", e.own.string? "body2" with
  | some first, some second =>
    if first ∈ linkage.bodies.map Body.name ∧ second ∈ linkage.bodies.map Body.name then
      some (first, second)
    else none
  | _, _ => none

theorem mem_of_excludedPair? {linkage : Linkage} {pair : String × String}
    (excluded : excludedPair? linkage e = some pair) :
    pair.1 ∈ linkage.bodies.map Body.name ∧ pair.2 ∈ linkage.bodies.map Body.name := by
  unfold excludedPair? at excluded
  split at excluded
  · split at excluded
    · rename_i known
      cases excluded
      exact known
    · contradiction
  · contradiction

theorem run_checkBody {label name : String} {known : Bool}
    (run : (checkBody linkage label name).run s = (known, t)) :
    Grows s t [] ∧ (known = true ↔ name ∈ linkage.bodies.map Body.name) := by
  unfold checkBody at run
  split at run
  · rename_i present
    obtain ⟨rfl, rfl⟩ := run_pure.mp run
    exact ⟨.refl _, by simpa using Linkage.find?_isSome_iff.mp present⟩
  · rename_i missing
    obtain ⟨_, u, reported, run⟩ := run_bind.mp run
    obtain ⟨rfl, rfl⟩ := run_pure.mp run
    rw [Linkage.find?_isSome_iff] at missing
    exact ⟨(Quiet.report _).run reported, by simpa using missing⟩

theorem run_contactExclusion (run : (contactExclusion linkage e).run s = ((), t)) :
    Grows s t (excludedPair? linkage e).toList := by
  unfold contactExclusion at run
  split at run
  · rename_i first second one other
    -- both names are looked up, and both may be reported, before either result counts
    obtain ⟨hasFirst, u, looked, run⟩ := run_bind.mp run
    obtain ⟨hasSecond, v, sought, run⟩ := run_bind.mp run
    obtain ⟨before, firstKnown⟩ := run_checkBody looked
    obtain ⟨between, secondKnown⟩ := run_checkBody sought
    have known : (hasFirst && hasSecond) = true ↔
        first ∈ linkage.bodies.map Body.name ∧ second ∈ linkage.bodies.map Body.name := by
      rw [Bool.and_eq_true, firstKnown, secondKnown]
    simp only [excludedPair?, one, other]
    split at run
    · rename_i both
      rw [if_pos (known.mp both)]
      exact before.trans (between.trans (Session.run_exclude run))
    · rename_i missing
      obtain ⟨_, rfl⟩ := run_pure.mp run
      rw [if_neg (missing ∘ known.mpr)]
      exact before.trans between
  · rename_i never
    obtain ⟨_, rfl⟩ := run_pure.mp run
    unfold excludedPair?
    split
    · rename_i first second one other
      exact (never first second one other).elim
    · exact .refl _

end Articulation.Mjcf
