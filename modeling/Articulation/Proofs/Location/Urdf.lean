import Articulation.Proofs.Location.Assembly
import Articulation.Proofs.Location.Shapes
import Articulation.Proofs.Urdf.Parts
/-! Links that are declared side by side, at two places. They give bodies that differ in files only, and the
same joints. -/
namespace Articulation.Urdf

open Session (InStep)

variable {e : Element}

/-! ### Materials -/

theorem inStep_declareMaterial (e : Element) : InStep id (declareMaterial e) (declareMaterial e) := by
  have look (name : String) : InStep id
      (do return (← get).assets.materials.find? name : StateM Session (Option Material))
      (do return (← get).assets.materials.find? name) :=
    .reading fun s t same => .pure (congrArg (fun c : Catalog Material.name => c.find? name) same.materials)
  unfold declareMaterial
  split
  · exact .pure rfl
  · dsimp only
    split
    · exact .bind_same (.addMaterial _) fun _ => look _
    · exact look _

theorem withoutFiles_recolored {d other : Drawable} (same : d.withoutFiles = other.withoutFiles)
    (color : Option Rgba) :
    Drawable.withoutFiles (match color with
        | some color => { d with rgba := color }
        | none => d) =
      Drawable.withoutFiles (match color with
        | some color => { other with rgba := color }
        | none => other) := by
  cases color with
  | none => exact same
  | some color => exact congrArg (fun d : Drawable => { d with rgba := color }) same

theorem inStep_paint {d other : Drawable} (same : d.withoutFiles = other.withoutFiles) :
    InStep Drawable.withoutFiles (paint d e) (paint other e) := by
  have name : d.name = other.name := (congrArg Drawable.name same : _)
  have reported (reference : String) :
      InStep id (Session.report (.unresolvedReference d.name "material" reference))
        (Session.report (.unresolvedReference other.name "material" reference)) := by
    rw [name]
    exact .of_onlyReports (.report _)
  unfold paint
  dsimp only
  split
  · exact .pure (withoutFiles_recolored same _)
  · refine .bind_same (inStep_declareMaterial e) fun found => ?_
    cases found with
    | some material => exact .pure (congrArg (Drawable.painted · material) same)
    | none =>
      dsimp only
      split
      · exact .bind_same (reported _) fun _ => .pure (withoutFiles_recolored same _)
      · exact .pure (withoutFiles_recolored same _)

/-! ### Links -/

variable (here there : Surroundings)

omit here there in
theorem inStep_placed (label : String) (e : Element) (found other : Option Shape) :
    found.map Shape.withoutFiles = other.map Shape.withoutFiles → InStep (Option.map Shape.withoutFiles)
      (match found with
        | some shape => return some (shape.placed (.ofOrigin (e.child? "origin")))
        | none => Geometry.instead label (.noGeometry e.kind) none)
      (match other with
        | some shape => return some (shape.placed (.ofOrigin (e.child? "origin")))
        | none => Geometry.instead label (.noGeometry e.kind) none) := by
  intro same
  cases found with
  | none =>
    rw [Option.map_eq_none_iff.mp same.symm]
    exact .of_onlyReports (.instead _ _ _)
  | some shape =>
    obtain ⟨another, rfl, alike⟩ := Option.map_eq_some_iff.mp same.symm
    exact .pure (congrArg (fun shape => some (Shape.placed shape _)) alike.symm)

theorem inStep_shape (label : String) (e : Element) :
    InStep (Option.map Shape.withoutFiles) (shape here label e) (shape there label e) := by
  unfold shape
  split
  · exact (InStep.pure rfl).bind (inStep_placed label e)
  · exact (Geometry.inStep_ofGeometry here there label _).bind (inStep_placed label e)

theorem inStep_collider (link : String) (e : Element) (i : Nat) :
    InStep (Option.map Collider.withoutFiles) (collider here link e i) (collider there link e i) := by
  refine (inStep_shape here there _ e).bind fun found other same => .pure ?_
  have collided := congrArg (Option.map (Collider.ofShape (label link "collision" e i))) same
  rw [Option.map_map, Option.map_map] at collided ⊢
  exact collided

theorem inStep_drawable (link : String) (e : Element) (i : Nat) :
    InStep (Option.map Drawable.withoutFiles) (drawable here link e i) (drawable there link e i) := by
  refine (inStep_shape here there _ e).bind fun found other same => ?_
  cases found with
  | none =>
    rw [Option.map_eq_none_iff.mp same.symm]
    exact .pure rfl
  | some shape =>
    obtain ⟨another, rfl, alike⟩ := Option.map_eq_some_iff.mp same.symm
    have drawn (label : String) : (Drawable.ofShape label shape).withoutFiles =
        (Drawable.ofShape label another).withoutFiles :=
      congrArg (Drawable.ofShape label) alike.symm
    dsimp only
    split
    · exact .pure (congrArg some (drawn _))
    · exact (inStep_paint (drawn _)).map fun _ _ same => congrArg some same

theorem inStep_link (e : Element) : InStep Body.withoutFiles (link here e) (link there e) := by
  refine .bind_same (.nameOr _ _) fun name => ?_
  refine (InStep.mapM fun visual _ => inStep_drawable here there name visual.1 visual.2).bind
    fun drawables others drawn => ?_
  refine (InStep.mapM fun collision _ => inStep_collider here there name collision.1 collision.2).bind
    fun colliders also collided => .pure ?_
  exact congrArg₂ (fun colliders drawables => Rose.node { Link.ofName name with
    inertial := (e.child? "inertial").map inertial, colliders, drawables } [])
    (map_filterMap_congr collided) (map_filterMap_congr drawn)

theorem inStep_parts (root : Element) :
    InStep (Prod.map (List.map Body.withoutFiles) id) (parts here root) (parts there root) := by
  refine .bind_same (.declare _) fun _ => .bind_same (.forM fun e _ => ?_) fun _ => ?_
  · exact fun s t same => ⟨rfl, (inStep_declareMaterial e s t same).2⟩
  refine (InStep.mapM fun e _ => inStep_link here there e).bind fun bodies others same => ?_
  have named (e : Element) : InStep id
      (do return (e, ← Session.nameOr e.name? "joint") : StateM Session (Element × String))
      (do return (e, ← Session.nameOr e.name? "joint")) :=
    .bind_same (.nameOr _ _) fun _ => .pure rfl
  exact .bind_same (.mapM_same fun e _ => named e) fun joints =>
    .pure (congrArg (·, joints) same)

/-! ### Robots -/

variable {here there}

theorem compile_anywhere (elsewhere : here.Elsewhere there) (root : Element) :
    anywhere (root.own.string? "name") (compile here .urdf root) =
      anywhere (root.own.string? "name") (compile there .urdf root) := by
  obtain ⟨alike, sessions⟩ := inStep_parts here there root .start .start (.refl _)
  generalize first : (parts here root).run .start = left at alike sessions
  generalize second : (parts there root).run .start = right at alike sessions
  obtain ⟨⟨bodies, joints⟩, s⟩ := left
  obtain ⟨⟨others, also⟩, t⟩ := right
  obtain ⟨same, (rfl : joints = also)⟩ := Prod.mk.inj alike
  have names := nameAnywhere_modelName here there (root.own.string? "name") "robot"
  rw [compile_of_parts first, compile_of_parts second, elsewhere.settings]
  refine anywhere_bind fun connections => ?_
  refine Assembly.finished_anywhere sessions same names connections fun t u trees => ?_
  rw [defaultActuators, defaultActuators, Linkage.actuatedJoints_anywhere trees]

end Articulation.Urdf
