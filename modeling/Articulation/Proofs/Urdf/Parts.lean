import Articulation.Proofs.Assembly.References
import Articulation.Proofs.Geometry
import Articulation.Urdf
/-! What compiling the links of a robot adds to the session: assets and diagnostics, but no exclusions. All
that a link refers to is registered by then. -/
namespace Articulation.Urdf

open Session (Grows Quiet)

variable {surroundings : Surroundings} {e : Element} {s t : Session}

/-! ### Materials -/

theorem run_findMaterial {name : String} {found : Option Material}
    (run : (do return (← get).assets.materials.find? name : StateM Session (Option Material)).run s =
      (found, t)) :
    Grows s t [] ∧
      ∀ material, found = some material → t.assets.materials.find? material.name = some material := by
  cases run
  refine ⟨.refl _, fun material found => ?_⟩
  rw [Catalog.key_of_find? found]
  exact found

theorem run_declareMaterial {found : Option Material} (run : (declareMaterial e).run s = (found, t)) :
    Grows s t [] ∧
      ∀ material, found = some material → t.assets.materials.find? material.name = some material := by
  unfold declareMaterial at run
  split at run
  · obtain ⟨rfl, rfl⟩ := run_pure.mp run
    exact ⟨.refl _, fun _ same => (nomatch same)⟩
  · dsimp only at run
    split at run
    · obtain ⟨_, u, added, run⟩ := run_bind.mp run
      have grows := (Quiet.addAssets fun a => a.extends_addMaterial _).run added
      obtain ⟨later, registered⟩ := run_findMaterial run
      exact ⟨grows.trans later, registered⟩
    · exact run_findMaterial run

/-- Without a material the drawable has at most another color. -/
theorem resolved_recolored {a : Assets} {d : Drawable} (resolved : d.Resolved a) (color : Option Rgba) :
    Drawable.Resolved a (match color with
      | some color => { d with rgba := color }
      | none => d) := by
  cases color with
  | none => exact resolved
  | some color => exact ⟨resolved.shape, resolved.material⟩

theorem run_paint {d painted : Drawable} (run : (paint d e).run s = (painted, t))
    (resolved : d.Resolved s.assets) : Grows s t [] ∧ painted.Resolved t.assets := by
  unfold paint at run
  dsimp only at run
  split at run
  · obtain ⟨rfl, rfl⟩ := run_pure.mp run
    exact ⟨.refl _, resolved_recolored resolved _⟩
  · obtain ⟨material, u, declared, run⟩ := run_bind.mp run
    obtain ⟨grows, registered⟩ := run_declareMaterial declared
    have known := resolved.mono grows.assets
    split at run
    · obtain ⟨rfl, rfl⟩ := run_pure.mp run
      exact ⟨grows, known.painted (registered _ rfl)⟩
    · split at run
      · obtain ⟨_, v, reported, run⟩ := run_bind.mp run
        obtain ⟨rfl, rfl⟩ := run_pure.mp run
        have later := (Quiet.report _).run reported
        exact ⟨grows.trans later, resolved_recolored (known.mono later.assets) _⟩
      · obtain ⟨rfl, rfl⟩ := run_pure.mp run
        exact ⟨grows, resolved_recolored known _⟩

/-! ### Shapes -/

theorem run_placed {label : String} {m : Misfit} {pose : Pose} {made found : Option Shape}
    (run : (match made with
      | some shape => return some (shape.placed pose)
      | none => Geometry.instead label m none : StateM Session (Option Shape)).run s = (found, t))
    (known : ∀ shape, made = some shape → shape.Resolved s.assets) :
    Grows s t [] ∧ ∀ shape, found = some shape → shape.Resolved t.assets := by
  cases made with
  | none => exact Geometry.run_none (.instead _ _ _) (fun _ => rfl) run
  | some shape =>
    obtain ⟨rfl, rfl⟩ := run_pure.mp run
    exact ⟨.refl _, fun other same => Option.some.inj same ▸ (known shape rfl).placed pose⟩

theorem run_shape {label : String} {found : Option Shape}
    (run : (shape surroundings label e).run s = (found, t)) :
    Grows s t [] ∧ ∀ shape, found = some shape → shape.Resolved t.assets := by
  unfold shape at run
  dsimp only at run
  split at run
  · exact Geometry.run_none (.instead _ _ _) (fun _ => rfl) run
  · obtain ⟨made, u, shaped, run⟩ := run_bind.mp run
    obtain ⟨grows, known⟩ := Geometry.run_ofGeometry shaped
    obtain ⟨later, resolved⟩ := run_placed run known
    exact ⟨grows.trans later, resolved⟩

theorem run_drawable {link : String} {i : Nat} {found : Option Drawable}
    (run : (drawable surroundings link e i).run s = (found, t)) :
    Grows s t [] ∧ ∀ d, found = some d → d.Resolved t.assets := by
  obtain ⟨made, u, shaped, run⟩ := run_bind.mp run
  obtain ⟨grows, known⟩ := run_shape shaped
  cases made with
  | none =>
    obtain ⟨rfl, rfl⟩ := run_pure.mp run
    exact ⟨grows, fun _ same => (nomatch same)⟩
  | some shape =>
    have plain := Drawable.resolved_ofShape (label link "visual" e i) (known shape rfl)
    dsimp only at run
    split at run
    · obtain ⟨rfl, rfl⟩ := run_pure.mp run
      exact ⟨grows, fun d same => Option.some.inj same ▸ plain⟩
    · obtain ⟨d, painted, rfl⟩ := run_map.mp run
      obtain ⟨later, resolved⟩ := run_paint painted plain
      exact ⟨grows.trans later, fun other same => Option.some.inj same ▸ resolved⟩

theorem run_collider {link : String} {i : Nat} {found : Option Collider}
    (run : (collider surroundings link e i).run s = (found, t)) :
    Grows s t [] ∧ ∀ c, found = some c → c.shape.Resolved t.assets := by
  obtain ⟨shape, u, shaped, run⟩ := run_bind.mp run
  obtain ⟨rfl, rfl⟩ := run_pure.mp run
  obtain ⟨grows, resolved⟩ := run_shape shaped
  refine ⟨grows, fun c same => ?_⟩
  obtain ⟨shape, found, rfl⟩ := Option.map_eq_some_iff.mp same
  exact resolved shape found

/-! ### Links -/

theorem run_link {b : Body} (run : (link surroundings e).run s = (b, t)) :
    Grows s t [] ∧ b.children = [] ∧ b.link.Resolved t.assets := by
  obtain ⟨name, u, named, run⟩ := run_bind.mp run
  obtain ⟨drawables, v, drawn, run⟩ := run_bind.mp run
  obtain ⟨colliders, w, collided, run⟩ := run_bind.mp run
  obtain ⟨rfl, rfl⟩ := run_pure.mp run
  have first := (Quiet.nameOr _ _).run named
  obtain ⟨second, drawables⟩ := Session.run_mapM
    (P := fun t _ found => ∀ d, found = some d → d.Resolved t.assets)
    (fun known grows d same => (known d same).mono grows.assets) (fun _ _ _ _ _ => run_drawable) drawn
  obtain ⟨third, colliders⟩ := Session.run_mapM
    (P := fun t _ found => ∀ c, found = some c → c.shape.Resolved t.assets)
    (fun known grows c same => (known c same).mono grows.assets) (fun _ _ _ _ _ => run_collider) collided
  refine ⟨first.trans (second.trans third), rfl, ?_, ?_⟩
  · intro c listed
    obtain ⟨found, member, same⟩ := List.mem_filterMap.mp listed
    obtain ⟨_, _, resolved⟩ := exists_of_forall₂ colliders.flip member
    exact resolved c same
  · intro d listed
    obtain ⟨found, member, same⟩ := List.mem_filterMap.mp listed
    obtain ⟨_, _, resolved⟩ := exists_of_forall₂ drawables.flip member
    exact (resolved d same).mono third.assets

theorem run_parts {root : Element} {bodies : List Body} {joints : List (Element × String)}
    (run : (parts surroundings root).run s = ((bodies, joints), t)) :
    Grows s t [] ∧ ∀ b ∈ bodies, b.children = [] ∧ b.link.Resolved t.assets := by
  obtain ⟨_, u, declared, run⟩ := run_bind.mp run
  obtain ⟨_, v, registered, run⟩ := run_bind.mp run
  obtain ⟨links, w, linked, run⟩ := run_bind.mp run
  obtain ⟨named, x, joined, run⟩ := run_bind.mp run
  obtain ⟨same, rfl⟩ := run_pure.mp run
  cases same
  have materials (e : Element) : Quiet (discard (declareMaterial e)) :=
    fun s => (run_declareMaterial (s := s) rfl).1
  have first := (Quiet.declare _).run declared
  have second := (Quiet.forM fun e _ => materials e).run registered
  obtain ⟨third, links⟩ := Session.run_mapM
    (P := fun t _ (b : Body) => b.children = [] ∧ b.link.Resolved t.assets)
    (fun known grows => ⟨known.1, known.2.mono grows.assets⟩) (fun _ _ _ _ _ => run_link) linked
  have fourth := (Quiet.mapM fun e : Element =>
    .bind (.nameOr e.name? "joint") fun name => .pure (e, name)).run joined
  refine ⟨first.trans (second.trans (third.trans fourth)), fun b member => ?_⟩
  obtain ⟨_, _, childless, resolved⟩ := exists_of_forall₂ links.flip member
  exact ⟨childless, resolved.mono fourth.assets⟩

/-! ### Robots -/

def defaultActuators (settings : UrdfSettings) (linkage : Linkage) : List Actuator :=
  if settings.defaultActuators then
    linkage.actuatedJoints.map fun joint => torqueActuator joint.name
  else []

/-- What is compiled once the links and joints are known. -/
theorem compile_of_parts {root : Element} {bodies : List Body} {joints : List (Element × String)}
    (run : (parts surroundings root).run .start = ((bodies, joints), s)) :
    compile surroundings .urdf root = (do
      let connections ← joints.mapM fun (e, name) => connection e name
      Assembly.finished s (surroundings.modelName (root.own.string? "name") "robot") bodies connections
        (defaultActuators surroundings.settings.urdf)) := by
  unfold compile
  simp only [run]
  rfl

/-- A robot that compiles refers to nothing that it lacks. -/
theorem closed_of_compile {kind : SchemaKind} {root : Element} {robot : Robot}
    (compiled : compile surroundings kind root = .ok robot) : robot.Closed := by
  cases kind with
  | mjcf => contradiction
  | urdf =>
    unfold compile at compiled
    dsimp only at compiled
    rw [if_neg (not_not_intro rfl)] at compiled
    split at compiled
    rename_i bodies joints session run
    obtain ⟨grows, known⟩ := run_parts run
    obtain ⟨connections, _, compiled⟩ := bind_eq_ok.mp compiled
    exact Assembly.closed_of_finished (defaultActuators surroundings.settings.urdf)
      (fun b member => (known b member).1) grows.exclusions (fun b member => (known b member).2)
      (fun _ => Assembly.resolved_actuated fun _ => rfl) compiled

end Articulation.Urdf
