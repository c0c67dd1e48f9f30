import Articulation.Proofs.Assembly.Declaration
import Articulation.Proofs.Sections
import Articulation.Proofs.Steady
import Articulation.Proofs.Urdf.Parts
/-! Robots whose links are declared in another order. A link with a name, whose visuals are painted with
materials that the robot declares, yields the same body wherever it is reached, so the order of the links
can only show in the order of the meshes that they register and of what they report. -/
namespace Articulation

/-- The same element but for the order of its links, and for how children of different types are
interleaved. -/
structure Element.Relinked (e f : Element) : Prop where
  value : e.value = f.value
  links : (e.childrenOf "link").Perm (f.childrenOf "link")
  others : ∀ kind, kind ≠ "link" → e.childrenOf kind = f.childrenOf kind

namespace Element.Relinked

/-- Neighbouring links may change places. -/
theorem swap (tag : Tag) (before after : List Element) {a b : Element} (first : a.kind = "link")
    (second : b.kind = "link") :
    Relinked (.node tag (before ++ a :: b :: after)) (.node tag (before ++ b :: a :: after)) := by
  refine ⟨rfl, ?_, fun kind other => ?_⟩
  · rw [childrenOf, childrenOf, Rose.children_node, Rose.children_node]
    exact ((List.Perm.swap b a after).append_left before).filter _
  · have skipped : ("link" == kind) = false := beq_false_of_ne other.symm
    simp [childrenOf, Rose.children_node, first, second, skipped]

variable {e f : Element} (relinked : e.Relinked f)

include relinked

theorem symm : f.Relinked e where
  value := relinked.value.symm
  links := relinked.links.symm
  others := fun kind other => (relinked.others kind other).symm

theorem names : e.declaredNames.Perm f.declaredNames := by
  refine names_of_perm (perm_of_childrenOf fun kind => ?_)
  by_cases link : kind = "link"
  · exact link ▸ relinked.links
  · exact .of_eq (relinked.others kind link)

end Element.Relinked

/-- The same model but for the order of its meshes and diagnostics. -/
structure Robot.SameUpToOrder (r s : Robot) : Prop where
  name : r.name = s.name
  linkage : r.linkage = s.linkage
  exclusions : r.exclusions = s.exclusions
  materials : r.materials = s.materials
  heightfields : r.heightfields = s.heightfields
  actuators : r.actuators = s.actuators
  meshes : r.meshes.Perm s.meshes
  diagnostics : r.diagnostics.Perm s.diagnostics

/-! ### Steady geometry -/

section

open Session (Steady)

variable {surroundings : Surroundings} {materials : Catalog Material.name} (label : String)

theorem Geometry.steady_ofSolid? (e : Element) :
    Steady surroundings materials (ofSolid? surroundings label e) := by
  unfold ofSolid?
  split
  · split
    · exact .pure _
    · exact .instead _ _ _
  · split
    · exact .pure _
    · exact .instead _ _ _
  · exact (Steady.of_onlyReports (onlyReports_tube label _ e)).map
  · exact (Steady.of_onlyReports (onlyReports_tube label _ e)).map
  · split
    · exact .instead _ _ _
    · exact (Steady.mesh _).bind fun _ => .pure _
  · exact .pure _

theorem Geometry.steady_ofGeometry (geometry : Element) :
    Steady surroundings materials <| ofGeometry? surroundings label geometry := by
  unfold ofGeometry?
  split
  · exact .pure _
  · exact steady_ofSolid? label _

end

namespace Urdf

open Session (Settled Steady Yield Yields)

variable {surroundings : Surroundings} {materials : Catalog Material.name} {e f : Element} {s : Session}

/-! ### Steady links -/

theorem steady_placed (label : String) (e : Element) (found : Option Shape) :
    Steady surroundings materials (match found with
      | some shape => return some (shape.placed (.ofOrigin (e.child? "origin")))
      | none => Geometry.instead label (.noGeometry e.kind) none) := by
  cases found with
  | none => exact .instead _ _ _
  | some shape => exact .pure _

theorem steady_shape (label : String) (e : Element) :
    Steady surroundings materials (shape surroundings label e) := by
  unfold shape
  split
  · exact (Steady.pure _).bind (steady_placed label e)
  · exact (Geometry.steady_ofGeometry label _).bind (steady_placed label e)

/-- A material that is registered is not declared anew. -/
theorem run_declareMaterial_known {name : String} {material : Material} (named : e.name? = some name)
    (found : materials.find? name = some material) (settled : Settled surroundings materials s) :
    (declareMaterial e).run s = (some material, s) := by
  have lookup : (do return (← get).assets.materials.find? name :
      StateM Session (Option Material)).run s = (some material, s) := by
    rw [← found, ← settled.materials]
    rfl
  unfold declareMaterial
  rw [named]
  cases color? e with
  | none => exact lookup
  | some color =>
    have taken : materials.contains (Material.ofColor name color).name = true :=
      Option.isSome_iff_exists.mpr ⟨material, found⟩
    have kept : s.assets.addMaterial (.ofColor name color) = s.assets := by
      rw [Assets.addMaterial_eq, settled.materials, Catalog.add_of_contains taken, ← settled.materials]
    refine run_bind.mpr ⟨(), s, ?_, lookup⟩
    exact congrArg (fun assets => ((), { s with assets })) kept

theorem steady_paint (d : Drawable) (known : ∀ name, e.name? = some name → materials.contains name) :
    Steady surroundings materials (paint d e) := by
  unfold paint
  cases named : e.name? with
  | none => exact .pure _
  | some name =>
    obtain ⟨material, found⟩ := Option.isSome_iff_exists.mp (known name named)
    refine ⟨⟨d.painted material, [], []⟩, fun s settled => ?_⟩
    refine run_bind.mpr ⟨_, _, run_declareMaterial_known named found settled, ?_⟩
    rw [Session.gained_nil]
    rfl

/-- Every material of a visual that has a name is registered. -/
def Painted (materials : Catalog Material.name) (visual : Element) : Prop :=
  ∀ material, visual.child? "material" = some material →
    ∀ name, material.name? = some name → materials.contains name

theorem steady_drawable (link : String) {visual : Element} (painted : Painted materials visual) (i : Nat) :
    Steady surroundings materials (drawable surroundings link visual i) := by
  refine (steady_shape _ visual).bind fun found => ?_
  cases found with
  | none => exact .pure _
  | some shape =>
    dsimp only
    split
    · exact .pure _
    · rename_i material here
      exact (steady_paint _ (painted material here)).map

theorem steady_collider (link : String) (e : Element) (i : Nat) :
    Steady surroundings materials (collider surroundings link e i) :=
  (steady_shape _ e).bind fun _ => .pure _

theorem steady_link {name : String} (named : e.name? = some name)
    (painted : ∀ visual ∈ e.childrenOf "visual", Painted materials visual) :
    Steady surroundings materials (link surroundings e) := by
  unfold link
  rw [named]
  refine (Steady.pure name).bind fun name => ?_
  refine .bind (.mapM fun indexed member => ?_) fun drawables => ?_
  · exact steady_drawable name (painted _ (List.fst_mem_of_mem_zipIdx member)) _
  · refine .bind (.mapM fun indexed _ => ?_) fun colliders => .pure _
    exact steady_collider name _ _

/-! ### Before and behind the links -/

/-- The materials behind a declaration, if it has a name and a color. -/
def register (materials : Catalog Material.name) (e : Element) : Catalog Material.name :=
  match e.name?, color? e with
  | some name, some color => materials.add (.ofColor name color)
  | _, _ => materials

theorem run_register (e : Element) (s : Session) :
    (discard (declareMaterial e)).run s =
      ((), { s with assets := { s.assets with materials := register s.assets.materials e } }) := by
  unfold declareMaterial register
  cases e.name? with
  | none => rfl
  | some name =>
    cases color? e with
    | none => rfl
    | some color => rfl

theorem run_registerAll (es : List Element) (s : Session) :
    (es.forM fun e => discard (declareMaterial e)).run s =
      ((), { s with assets := { s.assets with materials := es.foldl register s.assets.materials } }) := by
  induction es generalizing s with
  | nil => rfl
  | cons e es ih => exact run_bind.mpr ⟨_, _, run_register e s, ih _⟩

theorem extends_register (materials : Catalog Material.name) (e : Element) :
    materials.Extends (register materials e) := by
  unfold register
  split
  · exact Catalog.extends_add _ _
  · exact .refl _

theorem extends_registerAll (es : List Element) (materials : Catalog Material.name) :
    materials.Extends (es.foldl register materials) := by
  induction es generalizing materials with
  | nil => exact .refl _
  | cons e es ih => exact (extends_register materials e).trans (ih _)

theorem contains_registerAll {es : List Element} {d : Element} (member : d ∈ es) {name : String}
    (named : d.name? = some name) (colored : (color? d).isSome) (materials : Catalog Material.name) :
    (es.foldl register materials).contains name := by
  obtain ⟨color, colored⟩ := Option.isSome_iff_exists.mp colored
  induction es generalizing materials with
  | nil => cases member
  | cons e es ih =>
    rcases List.mem_cons.mp member with rfl | later
    · have here : ((register materials d).find? name).isSome := by
        have own : (Material.ofColor name color).name = name := rfl
        rw [register, named, colored, Catalog.find?_add, if_pos own, Option.isSome_or,
          Option.isSome_some, Bool.or_true]
      obtain ⟨material, found⟩ := Option.isSome_iff_exists.mp here
      exact Option.isSome_iff_exists.mpr ⟨material, extends_registerAll es _ name material found⟩
    · exact ih later _

/-- The session in which the links of a robot are compiled. -/
def opened (root : Element) : Session :=
  { Session.start with
    declared := ((Session.declare root.declaredNames).run .start).2.declared
    assets := { Assets.empty with materials := (root.childrenOf "material").foldl register .empty } }

theorem settled_opened (root : Element) :
    Settled surroundings (opened root).assets.materials (opened root) :=
  ⟨fun _ member => (nomatch member), rfl⟩

/-- The joints with their names. -/
def namedJoints (root : Element) : StateM Session (List (Element × String)) :=
  (root.childrenOf "joint").mapM fun e => do
    return (e, ← Session.nameOr e.name? "joint")

/-- Generated names do not depend on assets and reports. -/
theorem run_nameOr_gained (declared : Option String) (stem : String) (s : Session)
    (references : List String) (reports : List Diagnostic) :
    (Session.nameOr declared stem).run (s.gained surroundings references reports) =
      (((Session.nameOr declared stem).run s).1,
        ((Session.nameOr declared stem).run s).2.gained surroundings references reports) := by
  cases declared with
  | none => rfl
  | some name => rfl

theorem run_namedJoints_gained (root : Element) (s : Session) (references : List String)
    (reports : List Diagnostic) :
    (namedJoints root).run (s.gained surroundings references reports) =
      (((namedJoints root).run s).1, ((namedJoints root).run s).2.gained surroundings references reports) := by
  unfold namedJoints
  induction root.childrenOf "joint" generalizing s with
  | nil => rfl
  | cons e es ih =>
    simp only [List.mapM_cons]
    have named := @run_nameOr_gained surroundings e.name? "joint" s references reports
    refine run_bind.mpr ⟨_, _, run_bind.mpr ⟨_, _, named, rfl⟩, run_bind.mpr ⟨_, _, ih _, rfl⟩⟩

theorem assets_namedJoints (root : Element) (s : Session) :
    ((namedJoints root).run s).2.assets = s.assets := by
  have each (e : Element) (s : Session) : ((Session.nameOr e.name? "joint").run s).2.assets = s.assets := by
    cases e.name? with
    | none => rfl
    | some name => rfl
  unfold namedJoints
  induction root.childrenOf "joint" generalizing s with
  | nil => rfl
  | cons e es ih =>
    rw [List.mapM_cons]
    exact (ih ((Session.nameOr e.name? "joint").run s).2).trans (each e s)

/-- The links and the joints of a robot, compiled one behind the other. -/
theorem run_parts_yields {root : Element} {ys : List (Yield Body)}
    (each : List.Forall₂ (fun e y => Yields surroundings (opened root).assets.materials
      (link surroundings e) y) (root.childrenOf "link") ys) :
    (parts surroundings root).run .start =
      ((ys.map Yield.value, ((namedJoints root).run (opened root)).1),
        ((namedJoints root).run (opened root)).2.gained surroundings (ys.flatMap Yield.references)
          (ys.flatMap Yield.reports)) := by
  have linked := Session.run_mapM_yields each (settled_opened root)
  unfold parts
  refine run_bind.mpr ⟨(), _, rfl, ?_⟩
  refine run_bind.mpr ⟨(), opened root, run_registerAll _ _, ?_⟩
  refine run_bind.mpr ⟨_, _, linked, ?_⟩
  refine run_bind.mpr ⟨_, _, run_namedJoints_gained root _ _ _, ?_⟩
  rfl

/-! ### Links in another order -/

/-- Every link has a name, and every material that a visual names is declared by the robot with a color. -/
structure IsDeclared (root : Element) : Prop where
  named : ∀ link ∈ root.childrenOf "link", ∃ name, link.name? = some name
  painted : ∀ link ∈ root.childrenOf "link", ∀ visual ∈ link.childrenOf "visual",
    ∀ material, visual.child? "material" = some material → ∀ name, material.name? = some name →
      ∃ d ∈ root.childrenOf "material", d.name? = some name ∧ (color? d).isSome

theorem IsDeclared.steady {root : Element} (declared : IsDeclared root) :
    ∀ e ∈ root.childrenOf "link",
      Steady surroundings (opened root).assets.materials (link surroundings e) := by
  intro e member
  obtain ⟨name, named⟩ := declared.named e member
  refine steady_link named fun visual inside material here name given => ?_
  obtain ⟨d, listed, same, colored⟩ := declared.painted e member visual inside material here name given
  exact contains_registerAll listed same colored _

theorem IsDeclared.relinked (declared : IsDeclared e) (relinked : e.Relinked f) : IsDeclared f where
  named := fun link member => declared.named link (relinked.links.mem_iff.mpr member)
  painted := by
    rw [← relinked.others "material" (by decide)]
    exact fun link member => declared.painted link (relinked.links.mem_iff.mpr member)

theorem opened_relinked (relinked : e.Relinked f) : opened e = opened f := by
  rw [opened, opened, Session.declare_perm relinked.names, relinked.others "material" (by decide)]

/-- Bodies and sessions that differ in their order only finish to models that do so. -/
theorem finished_perm {t : Session} {bodies others : List Body} {connections : List Connection}
    {name : String} {actuators : Linkage → List Actuator} {robot : Robot}
    (made : Assembly.finished s name bodies connections actuators = .ok robot)
    (perm : bodies.Perm others) (exclusions : s.exclusions = t.exclusions)
    (materials : s.assets.materials = t.assets.materials)
    (heightfields : s.assets.heightfields = t.assets.heightfields)
    (meshes : s.assets.meshes.entries.Perm t.assets.meshes.entries)
    (diagnostics : s.diagnostics.Perm t.diagnostics) :
    ∃ other, Assembly.finished t name others connections actuators = .ok other ∧
      robot.SameUpToOrder other := by
  obtain ⟨tree, pairs, assembled, rfl⟩ := Assembly.finished_eq_ok.mp made
  have also := Assembly.assembleInto_congr perm (.refl connections) (fun _ => rfl) assembled
  rw [exclusions] at also
  refine ⟨_, Assembly.finished_eq_ok.mpr ⟨tree, pairs, also, rfl⟩, ?_⟩
  constructor
  case materials => exact congrArg Catalog.entries materials
  case heightfields => exact congrArg Catalog.entries heightfields
  case meshes => exact meshes
  case diagnostics => exact diagnostics
  all_goals rfl

theorem compile_relinked {robot : Robot} (relinked : e.Relinked f) (declared : IsDeclared e)
    (compiled : compile surroundings .urdf e = .ok robot) :
    ∃ other, compile surroundings .urdf f = .ok other ∧ robot.SameUpToOrder other := by
  obtain ⟨ys, yields⟩ := exists_forall₂ (@IsDeclared.steady surroundings _ declared)
  obtain ⟨zs, others, back⟩ := List.perm_comp_forall₂ relinked.links.symm yields
  have perm : ys.Perm zs := back.symm
  have own : e.own = f.own := congrArg (fun tag : Tag => tag.attributes.lookup) relinked.value
  have opened := opened_relinked relinked
  have joints : namedJoints e = namedJoints f := by
    rw [namedJoints, namedJoints, relinked.others "joint" (by decide)]
  have settled : Settled surroundings (Urdf.opened e).assets.materials
      ((namedJoints e).run (Urdf.opened e)).2 := by
    have start := @settled_opened surroundings e
    constructor
    · rw [assets_namedJoints]
      exact start.meshes
    · rw [assets_namedJoints]
  rw [opened] at others
  rw [compile_of_parts (run_parts_yields yields)] at compiled
  rw [compile_of_parts (run_parts_yields others), ← own, ← opened, ← joints]
  obtain ⟨connections, connected, made⟩ := bind_eq_ok.mp compiled
  have meshes := settled.gained_perm (perm.flatMap_right Yield.references)
    (ys.flatMap Yield.reports) (zs.flatMap Yield.reports)
  have reports := perm.flatMap_right Yield.reports
  generalize ((namedJoints e).run (Urdf.opened e)).2 = t at meshes made ⊢
  obtain ⟨other, also, same⟩ := finished_perm
    (t := t.gained surroundings (zs.flatMap Yield.references) (zs.flatMap Yield.reports)) made
    (perm.map Yield.value) rfl rfl rfl meshes (reports.append_left _)
  exact ⟨other, bind_eq_ok.mpr ⟨connections, connected, also⟩, same⟩

/-- The order in which a robot declares its links makes no difference but for the order of meshes and
diagnostics, if every link has a name and every material named by a visual is declared with a color: in
any order the robot compiles, or fails to. -/
theorem compileTree_relinked {t u : ElementTree} (kind : t.schema.kind = .urdf)
    (also : u.schema.kind = .urdf) (relinked : t.root.Relinked u.root) (declared : IsDeclared t.root)
    (surroundings : Surroundings) :
    ((∃ robot, compileTree surroundings t = .ok robot) ↔
      ∃ robot, compileTree surroundings u = .ok robot) ∧
    ∀ robot other, compileTree surroundings t = .ok robot → compileTree surroundings u = .ok other →
      robot.SameUpToOrder other := by
  have compiled : ∀ {t u : ElementTree}, t.schema.kind = .urdf → u.schema.kind = .urdf →
      t.root.Relinked u.root → IsDeclared t.root → ∀ robot, compileTree surroundings t = .ok robot →
        ∃ other, compileTree surroundings u = .ok other ∧ robot.SameUpToOrder other := by
    intro t u kind also relinked declared robot made
    obtain ⟨_, valid, made⟩ := bind_eq_ok.mp made
    rw [kind] at made
    obtain ⟨other, found, same⟩ := compile_relinked relinked declared made
    refine ⟨other, bind_eq_ok.mpr ⟨_, valid, ?_⟩, same⟩
    rw [also]
    exact found
  refine ⟨⟨?_, ?_⟩, ?_⟩
  · rintro ⟨robot, made⟩
    obtain ⟨other, found, _⟩ := compiled kind also relinked declared robot made
    exact ⟨other, found⟩
  · rintro ⟨robot, made⟩
    obtain ⟨other, found, _⟩ :=
      compiled also kind relinked.symm (declared.relinked relinked) robot made
    exact ⟨other, found⟩
  · intro robot other first second
    obtain ⟨found, same, alike⟩ := compiled kind also relinked declared robot first
    cases second.symm.trans same
    exact alike

def steel : Element := .node ⟨"material", .ofList [("name", .string "steel")]⟩
  [.node ⟨"color", .ofList [("rgba", .floatArray [1, 1, 1, 1])]⟩ []]

/-- A link with a mesh in a color that the robot declares. -/
def steelLink (name file : String) : Element := .node ⟨"link", .ofList [("name", .string name)]⟩
  [.node ⟨"visual", .empty⟩
    [.node ⟨"geometry", .empty⟩ [.node ⟨"mesh", .ofList [("filename", .string file)]⟩ []],
      .node ⟨"material", .ofList [("name", .string "steel")]⟩ []]]

def wrist : Element := .node ⟨"joint", .ofList [("name", .string "wrist")]⟩
  [.node ⟨"parent", .ofList [("link", .string "arm")]⟩ [],
    .node ⟨"child", .ofList [("link", .string "hand")]⟩ []]

/-- A robot of such links, each with the name and the file of a pair, and one joint. -/
def steelRobot (links : List (String × String)) : ElementTree :=
  .ofElement Schema.urdf (.node ⟨"robot", .empty⟩
    (steel :: links.map (fun l => steelLink l.1 l.2) ++ [wrist]))

theorem root_steelRobot (links : List (String × String)) : (steelRobot links).root =
    .node ⟨"robot", .empty⟩ (steel :: links.map (fun l => steelLink l.1 l.2) ++ [wrist]) :=
  ElementTree.root_ofElement _ _

theorem isDeclared_steelRobot (links : List (String × String)) : IsDeclared (steelRobot links).root := by
  rw [root_steelRobot]
  have known : ∀ link ∈ Element.childrenOf (.node ⟨"robot", .empty⟩
      (steel :: links.map (fun l => steelLink l.1 l.2) ++ [wrist])) "link",
      ∃ name file, link = steelLink name file := by
    intro link member
    obtain ⟨listed, kind⟩ := List.mem_filter.mp member
    simp only [Rose.children_node, List.cons_append, List.mem_cons, List.mem_append, List.mem_map,
      List.not_mem_nil, or_false] at listed
    rcases listed with rfl | ⟨pair, _, rfl⟩ | rfl
    · contradiction
    · exact ⟨pair.1, pair.2, rfl⟩
    · contradiction
  constructor
  · intro link member
    obtain ⟨name, file, rfl⟩ := known link member
    exact ⟨name, rfl⟩
  · intro link member visual inside material here name given
    obtain ⟨_, file, rfl⟩ := known link member
    cases List.mem_singleton.mp inside
    cases here
    cases given
    exact ⟨steel, List.mem_filter.mpr ⟨List.mem_cons_self, rfl⟩, rfl, rfl⟩

def meshNames (robot : Robot) : List String := robot.meshes.map Mesh.id

/-- Meshes are listed as the links that carry them. -/
theorem compileTree_relinked_steel :
    ∃ robot other,
      compileTree (.ofSettings .standard)
        (steelRobot [("arm", "arm.stl"), ("hand", "hand.stl")]) = .ok robot ∧
      compileTree (.ofSettings .standard)
        (steelRobot [("hand", "hand.stl"), ("arm", "arm.stl")]) = .ok other ∧
      robot.SameUpToOrder other ∧ meshNames robot = ["arm.stl", "hand.stl"] ∧
      meshNames other = ["hand.stl", "arm.stl"] := by
  have first : meshNames <$> compileTree (.ofSettings .standard)
      (steelRobot [("arm", "arm.stl"), ("hand", "hand.stl")]) =
        .ok ["arm.stl", "hand.stl"] := by decide +kernel
  have second : meshNames <$> compileTree (.ofSettings .standard)
      (steelRobot [("hand", "hand.stl"), ("arm", "arm.stl")]) =
        .ok ["hand.stl", "arm.stl"] := by decide +kernel
  obtain ⟨robot, compiled, meshes⟩ := map_eq_ok.mp first
  obtain ⟨other, also, others⟩ := map_eq_ok.mp second
  have relinked : (steelRobot [("arm", "arm.stl"), ("hand", "hand.stl")]).root.Relinked
      (steelRobot [("hand", "hand.stl"), ("arm", "arm.stl")]).root := by
    rw [root_steelRobot, root_steelRobot]
    exact .swap _ [steel] [wrist] rfl rfl
  obtain ⟨_, same⟩ := compileTree_relinked rfl rfl relinked (isDeclared_steelRobot _)
    (.ofSettings .standard)
  exact ⟨robot, other, compiled, also, same robot other compiled also, meshes, others⟩

end Urdf

end Articulation
