import Articulation.Proofs.Location.Shapes
import Articulation.Proofs.Mjcf.Mirror
import Articulation.Proofs.Mjcf.Targets
/-! Bodies that nest at two places. The surroundings of a document are read for the paths of files alone, and
a compilation goes through the same steps whatever these are. -/
namespace Articulation.Mjcf

open Session (InStep OnlyReports SameButFiles)

variable (r : Rules) (here there : Surroundings) (inherited : Option String)

/-! ### Assets -/

theorem inStep_meshAsset (e : Element) : InStep id (meshAsset r here e) (meshAsset r there e) := by
  unfold meshAsset
  dsimp only
  split
  · exact .of_onlyReports (.report _)
  · exact .addMesh rfl

theorem inStep_materialAsset (e : Element) : InStep id (materialAsset r e) (materialAsset r e) := by
  unfold materialAsset
  split
  · exact .pure rfl
  · exact .addMaterial _

theorem inStep_heightfieldAsset (e : Element) :
    InStep id (heightfieldAsset here e) (heightfieldAsset there e) := by
  unfold heightfieldAsset
  split
  · exact .pure rfl
  · rename_i name _
    have alike (extent : GridExtent) (file : Option String) (f g : String → String) :
        Heightfield.withoutFile ⟨name, file.map f, gridCount e "nrow", gridCount e "ncol", extent⟩ =
        Heightfield.withoutFile ⟨name, file.map g, gridCount e "nrow", gridCount e "ncol", extent⟩ := by
      rw [Heightfield.withoutFile, Heightfield.withoutFile, Option.map_map, Option.map_map]
      rfl
    dsimp only
    split
    · exact .bind_same (.pure rfl) fun _ => .addHeightfield (alike _ _ _ _)
    · exact .bind_same (.of_onlyReports (.instead _ _ _)) fun _ => .addHeightfield (alike _ _ _ _)

theorem inStep_assets (root : Element) : InStep id (assets r here root) (assets r there root) := by
  refine .forM fun e _ => ?_
  unfold asset
  split
  · exact inStep_meshAsset r here there e
  · exact inStep_materialAsset r e
  · exact inStep_heightfieldAsset here there e
  · exact .pure rfl

/-! ### The parts of a body -/

theorem inStep_materialOf (l : Lookup) (referrer : String) :
    InStep id (materialOf l referrer) (materialOf l referrer) := by
  unfold materialOf
  split
  · exact .pure rfl
  · refine .reading fun s t same => ?_
    rw [same.materials]
    dsimp only
    split
    · exact .of_onlyReports (.bind (.report _) fun _ => .pure _)
    · exact .pure rfl

theorem withoutFiles_paint (scope : Scope) (found : Option Material) (d : Drawable) :
    (paint scope found d).withoutFiles = paint scope found d.withoutFiles := by
  unfold paint
  split
  · rfl
  · split
    · rfl
    · split
      · rfl
      · rfl

/-- The density of a collider is read off its size, which its file does not change. -/
theorem withoutFiles_collider (l : Lookup) (name : String) (shape : Shape) :
    (collider l name shape).withoutFiles = collider l name shape.withoutFiles := rfl

theorem inStep_geom (e : Element) :
    InStep (Prod.map Collider.withoutFiles Drawable.withoutFiles) (geom r here inherited e)
      (geom r there inherited e) := by
  refine (Geometry.inStep_ofGeom here there _).bind fun shape other same => ?_
  refine .bind_same (.nameOr _ _) fun name => .bind_same (inStep_materialOf _ _) fun material => .pure ?_
  -- where there is no segment the shape moves to the frame of the element, in both runs to the same one
  have segment : shape.fromSegment = other.fromSegment := (congrArg Shape.fromSegment same : _)
  have placed (pose : Pose) : (if shape.fromSegment then shape else shape.placed pose).withoutFiles =
      (if other.fromSegment then other else other.placed pose).withoutFiles := by
    rw [segment]
    split
    · exact same
    · exact congrArg (Shape.placed · pose) same
  apply Prod.ext
  · show (collider _ name _).withoutFiles = (collider _ name _).withoutFiles
    rw [withoutFiles_collider, withoutFiles_collider]
    exact congrArg (collider _ name) (placed _)
  · show (paint _ material _).withoutFiles = (paint _ material _).withoutFiles
    rw [withoutFiles_paint, withoutFiles_paint]
    exact congrArg (fun shape => paint _ material (.ofShape name shape)) (placed _)

theorem inStep_joint (e : Element) : InStep id (joint r inherited e) (joint r inherited e) :=
  .bind_same (.nameOr _ _) fun _ => .pure rfl

theorem inStep_freeJoint (e : Element) : InStep id (freeJoint e) (freeJoint e) :=
  .bind_same (.nameOr _ _) fun _ => .pure rfl

/-! ### Bodies -/

/-- The link with the two sides of a geom behind what is on it. -/
def sided (link : Link) (c : Collider) (d : Drawable) : Link :=
  { link with colliders := link.colliders ++ [c], drawables := link.drawables ++ [d] }

theorem withoutFiles_sided (link : Link) (c : Collider) (d : Drawable) :
    (sided link c d).withoutFiles = sided link.withoutFiles c.withoutFiles d.withoutFiles := by
  rw [sided, Link.withoutFiles, List.map_append, List.map_append]
  rfl

variable {r here there inherited}

/-- One child element more, whatever its type. -/
theorem inStep_member {e : Element} (nested : ∀ parent, InStep Body.withoutFiles
      (body r here parent inherited e) (body r there parent inherited e))
    {b c : Body} (same : b.withoutFiles = c.withoutFiles) :
    InStep Body.withoutFiles (member r here inherited b e) (member r there inherited c e) := by
  cases b with
  | node link children =>
  cases c with
  | node other others =>
  rw [Body.withoutFiles_node, Body.withoutFiles_node] at same
  obtain ⟨value, below⟩ := Rose.node.inj same
  have name : link.name = other.name := (congrArg Link.name value : _)
  -- a part joins the link, a body the children
  have joined {l m : Link} (alike : l.withoutFiles = m.withoutFiles) :
      Body.withoutFiles (.node l children) = Body.withoutFiles (.node m others) := by
    rw [Body.withoutFiles_node, Body.withoutFiles_node, alike, below]
  by_cases geom : e.kind = "geom"
  · rw [member_geom geom, member_geom geom]
    refine (inStep_geom r here there inherited e).bind fun sides others alike => .pure ?_
    obtain ⟨collider, drawable⟩ := Prod.mk.inj alike
    have sided : (sided link sides.1 sides.2).withoutFiles =
        (sided other others.1 others.2).withoutFiles := by
      rw [withoutFiles_sided, withoutFiles_sided, value, collider, drawable]
    exact joined sided
  by_cases joint : e.kind = "joint"
  · rw [member_joint joint, member_joint joint]
    refine .bind_same (inStep_joint r inherited e) fun joint => .pure (joined ?_)
    exact congrArg (fun link : Link => { link with joints := link.joints ++ [joint] }) value
  by_cases free : e.kind = "freejoint"
  · rw [member_freeJoint free, member_freeJoint free]
    refine .bind_same (inStep_freeJoint e) fun joint => .pure (joined ?_)
    exact congrArg (fun link : Link => { link with joints := link.joints ++ [joint] }) value
  by_cases inertial : e.kind = "inertial"
  · rw [member_inertial inertial, member_inertial inertial, Rose.value_node, Rose.value_node, name]
    refine .bind_same (.of_onlyReports (onlyReports_inertial _ _ _)) fun inertial => .pure (joined ?_)
    exact congrArg (fun link : Link => { link with inertial := some inertial }) value
  by_cases body : e.kind = "body"
  · rw [member_body body, member_body body, Rose.value_node, Rose.value_node, name]
    refine (nested _).bind fun child another alike => .pure ?_
    rw [Body.withoutFiles_node, Body.withoutFiles_node, value, Rose.children_node, Rose.children_node,
      List.map_append, List.map_append, below, List.map_singleton, List.map_singleton, alike]
  · rw [member_other geom joint free inertial body, member_other geom joint free inertial body]
    exact .pure (joined value)

theorem inStep_body (parent : Option String) (e : Element) :
    InStep Body.withoutFiles (body r here parent inherited e) (body r there parent inherited e) := by
  induction e using Rose.induction generalizing parent inherited with
  | step tag children ih =>
    rw [body_eq, body_eq]
    refine .bind_same (.nameOr _ _) fun name => ?_
    have steps (inherited : Option String) (link : Link) : InStep Body.withoutFiles
        (children.foldlM (member r here inherited) (.node link []))
        (children.foldlM (member r there inherited) (.node link [])) :=
      .foldlM (fun e listed b c same => inStep_member (fun parent => ih e listed parent) same) rfl
    cases parent with
    | none => exact steps _ _
    | some parent => exact .bind_same (.exclude _ _) fun _ => steps _ _

/-! ### Frames -/

theorem withoutFiles_toRelative (above : Pose) (link : Link) :
    (toRelative above link).withoutFiles = toRelative above link.withoutFiles := by
  let f := link.pose.relative
  have colliders : (link.colliders.map (Collider.reframed f)).map Collider.withoutFiles =
      (link.colliders.map Collider.withoutFiles).map (Collider.reframed f) := by
    rw [List.map_map, List.map_map]
    rfl
  have drawables : (link.drawables.map (Drawable.reframed f)).map Drawable.withoutFiles =
      (link.drawables.map Drawable.withoutFiles).map (Drawable.reframed f) := by
    rw [List.map_map, List.map_map]
    rfl
  exact congrArg₂ (fun colliders drawables => { toRelative above link with colliders, drawables })
    colliders drawables

theorem withoutFiles_localize (above : Pose) (b : Body) :
    (localize above b).withoutFiles = localize above b.withoutFiles := by
  induction b using Rose.induction generalizing above with
  | step link children ih =>
    have below : (children.map (localize link.pose)).map Body.withoutFiles =
        (children.map Body.withoutFiles).map (localize link.pose) := by
      rw [List.map_map, List.map_map]
      exact List.map_congr_left fun child member => ih child member _
    rw [localize, localizeAll_eq, Body.withoutFiles_node, Body.withoutFiles_node, below,
      withoutFiles_toRelative, localize, localizeAll_eq]
    rfl

theorem withoutFiles_resolved (mode : CoordinateMode) (b : Body) :
    (resolved mode b).withoutFiles = resolved mode b.withoutFiles := by
  cases mode with
  | relative => rfl
  | world => exact withoutFiles_localize .identity b

/-! ### What refers to bodies and joints -/

theorem onlyReports_target (linkage : Linkage) (referrer : String) (reference : Option String) :
    OnlyReports (target linkage referrer reference) := by
  unfold target
  split
  · exact .pure _
  · exact .bind (.report _) fun _ => .pure _

theorem inStep_actuators (linkage : Linkage) (root : Element) :
    InStep id (actuators r linkage root) (actuators r linkage root) :=
  .mapM_same fun _ _ => .bind_same (.nameOr _ _) fun _ =>
    .bind_same (.of_onlyReports (onlyReports_target _ _ _)) fun _ => .pure rfl

theorem inStep_contactExclusions (linkage : Linkage) (root : Element) :
    InStep id (contactExclusions linkage root) (contactExclusions linkage root) := by
  have checked (label name : String) : OnlyReports (checkBody linkage label name) := by
    unfold checkBody
    split
    · exact .pure _
    · exact .bind (.report _) fun _ => .pure _
  refine .forM fun e _ => ?_
  unfold contactExclusion
  split
  · refine .bind_same (.of_onlyReports (checked _ _)) fun first => ?_
    refine .bind_same (.of_onlyReports (checked _ _)) fun second => ?_
    split
    · exact .exclude _ _
    · exact .pure rfl
  · exact .pure rfl

/-! ### Documents -/

theorem sameNames_of_withoutFiles {t u : Linkage} (same : t.withoutFiles = u.withoutFiles) :
    t.SameNames u :=
  .of_map (f := Link.withoutFiles) (fun _ => rfl) (fun _ => rfl) (congrArg Linkage.root same)

theorem documentRules_elsewhere (elsewhere : here.Elsewhere there) (root : Element) :
    documentRules there root = documentRules here root := by
  rw [documentRules, documentRules, elsewhere.settings]
  rfl

theorem model_anywhere (elsewhere : here.Elsewhere there) (root first : Element)
    {declared : Option String} {name other : String}
    (names : nameAnywhere declared name = nameAnywhere declared other) :
    (model here root first name).anywhere declared = (model there root first other).anywhere declared := by
  obtain ⟨written, drives, named, prepared, built, moved, last, declares, registered, compiled, actuated,
    excluded, whole⟩ := exists_model here root first name
  obtain ⟨written', drives', named', prepared', built', moved', last', declares', registered', compiled',
    actuated', excluded', whole'⟩ := exists_model there root first other
  have rules := documentRules_elsewhere elsewhere root
  rw [rules] at registered' compiled' actuated'
  obtain ⟨_, sessions⟩ := (InStep.declare _).run (.refl _) declares declares'
  obtain ⟨_, sessions⟩ := (inStep_assets _ _ _ root).run sessions registered registered'
  obtain ⟨bodies, sessions⟩ := (inStep_body none first).run sessions compiled compiled'
  have trees : (documentLinkage here root written).withoutFiles =
      (documentLinkage there root written').withoutFiles := by
    rw [documentLinkage, documentLinkage, rules, Linkage.withoutFiles_ofBody, withoutFiles_resolved, bodies,
      Linkage.withoutFiles_ofBody, withoutFiles_resolved]
  have names' := sameNames_of_withoutFiles trees
  rw [actuators_congr names'] at actuated
  rw [contactExclusions_congr names'] at excluded
  obtain ⟨driven, sessions⟩ := (inStep_actuators _ root).run sessions actuated actuated'
  obtain ⟨_, sessions⟩ := (inStep_contactExclusions _ root).run sessions excluded excluded'
  rw [whole, whole']
  exact sessions.finish trees names driven

theorem compile_anywhere (elsewhere : here.Elsewhere there) (root : Element) :
    anywhere (root.own.string? "model") (compile here .mjcf root) =
      anywhere (root.own.string? "model") (compile there .mjcf root) := by
  have names := nameAnywhere_modelName here there (root.own.string? "model") "mjcf"
  rw [compile_mjcf, compile_mjcf, documentName, documentName, rootBody, rootBody]
  cases root.child? "worldbody" with
  | none => exact congrArg (fun name => Except.error (LoadError.missingElement _ (.model name))) names
  | some world =>
    dsimp only
    cases world.child? "body" with
    | none => exact congrArg (fun name => Except.error (LoadError.missingElement _ (.worldBody name))) names
    | some first => exact congrArg Except.ok (model_anywhere elsewhere root first names)

end Articulation.Mjcf
