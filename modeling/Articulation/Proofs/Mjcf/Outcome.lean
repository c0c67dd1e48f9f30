import Articulation.Proofs.Mjcf.Mirror
/-! What the compilation of a document gives. It succeeds wherever there is a root body, whatever else the
document holds, and the model mirrors the body elements, the contacts excluded and the actuators. -/
namespace Articulation.Mjcf

open Session (Grows Quiet)

/-! ### One run -/

/-- The elements in the actuator blocks. -/
def drives (root : Element) : List Element := (root.childrenOf "actuator").flatMap Rose.children

/-- The elements that exclude a contact. -/
def excludes (root : Element) : List Element :=
  (root.childrenOf "contact").flatMap fun e => e.childrenOf "exclude"

/-- The actuator is what the element compiles to in some session. -/
structure IsActuatorOf (r : Rules) (linkage : Linkage) (e : Element) (a : Actuator) : Prop where
  kind : ActuatorKind.ofKeyword? e.kind = some a.kind
  named : e.Names a.name
  made : ∃ s, ((actuator r linkage a.kind e).run s).1 = a

def isDrive (e : Element) : Bool := (ActuatorKind.ofKeyword? e.kind).isSome

variable {surroundings : Surroundings} {root first : Element} {name : String} {robot : Robot}

theorem map_drives (elements : List Element) :
    (elements.filterMap fun e => (ActuatorKind.ofKeyword? e.kind).map fun kind => (kind, e)).map Prod.snd =
      elements.filter isDrive := by
  induction elements with
  | nil => rfl
  | cons e rest ih =>
    rw [List.filterMap_cons, List.filter_cons, isDrive, ← ih]
    cases ActuatorKind.ofKeyword? e.kind <;> rfl

theorem run_actuators {r : Rules} {linkage : Linkage} {s t : Session} {made : List Actuator}
    (run : (actuators r linkage root).run s = (made, t)) :
    Grows s t [] ∧ List.Forall₂ (fun e a => IsActuatorOf r linkage e a ∧ a.Resolved linkage t.diagnostics)
      ((drives root).filter isDrive) made := by
  rw [← map_drives]
  suffices all : Grows s t [] ∧ List.Forall₂ (fun (drive : ActuatorKind × Element) a =>
      IsActuatorOf r linkage drive.2 a ∧ a.Resolved linkage t.diagnostics) _ made from
    ⟨all.1, List.forall₂_map_left_iff.mpr all.2⟩
  refine Session.run_mapM (P := fun t (drive : ActuatorKind × Element) a =>
    IsActuatorOf r linkage drive.2 a ∧ a.Resolved linkage t.diagnostics) ?_ ?_ run
  · intro s t drive a holds grows
    exact ⟨holds.1, holds.2.mono grows.diagnostics⟩
  · intro drive listed s a t run
    obtain ⟨e, _, paired⟩ := List.mem_filterMap.mp listed
    obtain ⟨kind, known, rfl⟩ := Option.map_eq_some_iff.mp paired
    obtain ⟨grows, resolved, same, named⟩ := run_actuator run
    exact ⟨grows, ⟨same ▸ known, named, s, by rw [same, run]⟩, resolved⟩

/-- The model of a document, made of the body that its root body element compiles to. -/
structure IsModel (surroundings : Surroundings) (root first : Element) (written : Body) (last : Session)
    (robot : Robot) : Prop where
  finished : ∃ name, robot =
    last.finish name (documentLinkage surroundings root written) robot.actuators
  same : Rose.Matches (IsLinkOf (documentRules surroundings root) (located surroundings root))
    (bodyTree none first) written
  resolved : written.Resolved last.assets
  exclusions : last.exclusions = written.branches ++
    (excludes root).filterMap (excludedPair? (documentLinkage surroundings root written))
  actuators : List.Forall₂ (fun e a =>
      IsActuatorOf (documentRules surroundings root) (documentLinkage surroundings root written) e a ∧
      a.Resolved (documentLinkage surroundings root written) last.diagnostics)
    ((drives root).filter isDrive) robot.actuators

theorem isModel_model (surroundings : Surroundings) (root : Element) (name : String)
    (kind : first.kind = "body") :
    ∃ written last, IsModel surroundings root first written last (model surroundings root first name) := by
  obtain ⟨written, made, named, prepared, built, driven, last, declared, registered, compiled, actuated,
    excluded, whole⟩ := exists_model surroundings root first name
  have body := run_body kind compiled
  obtain ⟨quiet, actuators⟩ := run_actuators actuated
  have contacts := Session.run_forM run_contactExclusion excluded
  have all := ((Quiet.declare _).run declared).trans (((quiet_assets _ _ _).run registered).trans
    (body.grows.trans (quiet.trans contacts)))
  refine ⟨written, last, ⟨name, by rw [whole]; rfl⟩, body.same, ?_, ?_, ?_⟩
  · exact body.resolved.mono (quiet.trans contacts).assets
  · rw [all.exclusions, List.filterMap_eq_flatMap_toList]
    rfl
  · rw [whole]
    exact actuators.imp fun _ _ pair => ⟨pair.1, pair.2.mono contacts.diagnostics⟩

/-! ### Body elements -/

theorem not_holdsBodies_subtree {e : Element} (conforms : e.Conforms Schema.mjcf)
    (other : ¬ holdsBodies e.kind) : ∀ x : Element, x ∈ e.subtrees → ¬ holdsBodies x.kind := by
  induction e using Rose.induction with
  | step tag children ih =>
    intro x inside
    rcases Rose.mem_subtrees.mp inside with rfl | ⟨child, member, inside⟩
    · exact other
    · obtain ⟨allowed, inner⟩ := conforms.child member
      exact ih child member inner (not_holdsBodies_child allowed other) x inside

/-- Below a body, bodies stand in bodies only. -/
theorem no_body_below {e child : Element} (conforms : e.Conforms Schema.mjcf) (kind : e.kind = "body")
    (member : child ∈ e.children) (other : isBody child = false) : child.subtrees.filter isBody = [] := by
  obtain ⟨allowed, inner⟩ := conforms.child member
  have outside : ¬ holdsBodies child.kind := by
    obtain ⟨row, listed, same, below⟩ := Schema.exists_child allowed
    obtain ⟨_, _, _, world, top⟩ := class_rules row listed
    rintro (root | worldbody | body)
    · exact top (root ▸ below)
    · have document := same.symm.trans (world (worldbody ▸ below))
      rw [kind] at document
      contradiction
    · simp [isBody, body] at other
  refine List.filter_eq_nil_iff.mpr fun x inside body => ?_
  exact not_holdsBodies_subtree inner outside x inside (.inr (.inr (beq_iff_eq.mp body)))

/-- The tree of body elements has them all, in pre-order. -/
theorem preorder_bodyTree {e : Element} (conforms : e.Conforms Schema.mjcf) (kind : e.kind = "body")
    (inherited : Option String) :
    (bodyTree inherited e).preorder.map Prod.snd = e.subtrees.filter isBody := by
  induction e using Rose.induction generalizing inherited with
  | step tag children ih =>
    have here : isBody (.node tag children) = true := beq_iff_eq.mpr kind
    -- children that are no bodies have none below them, so leaving them out loses none
    rw [Rose.subtrees_eq, List.filter_cons_of_pos here, Rose.subtreesAll_eq, List.filter_flatMap,
      ← flatMap_filter fun child member => no_body_below conforms kind member, bodyTree, Rose.preorder_eq,
      List.map_cons, List.map_flatMap, Rose.children_node, bodyTrees_eq, List.flatMap_map]
    refine congrArg (_ :: List.flatten ·) (List.map_congr_left fun child listed => ?_)
    obtain ⟨member, body⟩ := List.mem_filter.mp listed
    exact ih child member (conforms.child member).2 (beq_iff_eq.mp body) _

theorem drives_all {root : Element} (conforms : root.Conforms Schema.mjcf) :
    (drives root).filter isDrive = drives root := by
  refine List.filter_eq_self.mpr fun e listed => ?_
  obtain ⟨block, member, below⟩ := List.mem_flatMap.mp listed
  obtain ⟨hanging, kind⟩ := List.mem_filter.mp member
  have allowed := ((conforms.child hanging).2.child below).1
  obtain ⟨row, known, same, child⟩ := Schema.exists_child allowed
  have rules : ∀ row ∈ Schema.mjcf.rules, row.1 = "actuator" →
      ∀ child ∈ row.2.children, (ActuatorKind.ofKeyword? child).isSome = true := by
    decide +kernel
  exact rules row known (same.trans (beq_iff_eq.mp kind)) _ child

/-! ### The whole -/

/-- The model is that of the elements in the first body and of what refers to them. -/
structure Mirrors (surroundings : Surroundings) (root first : Element) (robot : Robot) : Prop where
  /-- Bodies and body elements form trees of one shape, and each link is that of its element. -/
  tree : Rose.Matches (IsLinkOf (documentRules surroundings root) (located surroundings root))
    (bodyTree none first) robot.linkage.root
  /-- These are all body elements, in pre-order. -/
  preorder : List.Forall₂ (fun (e : Element) (b : Body) => ∃ handed,
      IsLinkOf (documentRules surroundings root) (located surroundings root) (handed, e) b.link)
    (first.subtrees.filter isBody) robot.linkage.bodies
  /-- First the edges of the tree in pre-order of the child, then the contacts between its bodies. -/
  exclusions : robot.exclusions = robot.linkage.bodies.filterMap robot.linkage.edge? ++
    (excludes root).filterMap (excludedPair? robot.linkage)
  actuators : List.Forall₂ (IsActuatorOf (documentRules surroundings root) robot.linkage)
    (drives root) robot.actuators

theorem reframed_documentLinkage (surroundings : Surroundings) (root : Element) (written : Body) :
    written.Reframed (documentLinkage surroundings root written).root :=
  (reframed_resolved _ written).trans (Body.reframed_ofBody _) Link.Reframed.trans

theorem edges_documentLinkage (surroundings : Surroundings) (root : Element) (written : Body) :
    (documentLinkage surroundings root written).bodies.filterMap
      (documentLinkage surroundings root written).edge? = written.branches := by
  rw [documentLinkage, Linkage.edges_ofBody]
  exact (reframed_resolved _ written).branches.symm

theorem IsModel.mirrors {written : Body} {last : Session} (conforms : root.Conforms Schema.mjcf)
    (inner : first.Conforms Schema.mjcf) (kind : first.kind = "body")
    (model : IsModel surroundings root first written last robot) :
    Mirrors surroundings root first robot := by
  obtain ⟨name, whole⟩ := model.finished
  have linkage : robot.linkage = documentLinkage surroundings root written := congrArg Robot.linkage whole
  have tree := model.same.trans (reframed_documentLinkage surroundings root written) IsLinkOf.reframed
  constructor
  · rw [linkage]
    exact tree
  · rw [← preorder_bodyTree inner kind none, linkage, Linkage.bodies, Body.bodies_eq]
    refine List.forall₂_map_left_iff.mpr ?_
    exact (List.forall₂_map_right_iff.mp tree.preorder).imp fun origin _ same => ⟨origin.1, same⟩
  · rw [show robot.exclusions = last.exclusions from congrArg Robot.exclusions whole, model.exclusions,
      linkage, edges_documentLinkage]
  · rw [linkage, ← drives_all conforms]
    exact model.actuators.imp fun _ _ both => both.1

/-- A document compiles exactly if it has a world body and the first one a body; nothing else can make it
fail. The model mirrors the document: bodies the body elements in the first body, as trees, with joints,
colliders and drawables those of the elements on each; exclusions the edges and the contacts between
bodies of the tree; actuators the elements in the actuator blocks. -/
theorem compile_mirrors {t : ElementTree} (made : ElementTree.Made .mjcf t) (surroundings : Surroundings) :
    ((∃ robot, compile surroundings t.schema.kind t.root = .ok robot) ↔
      ∃ world first, t.root.child? "worldbody" = some world ∧ world.child? "body" = some first) ∧
    ∀ world first robot, t.root.child? "worldbody" = some world → world.child? "body" = some first →
      compile surroundings t.schema.kind t.root = .ok robot →
      Mirrors surroundings t.root first robot := by
  have conforms : t.root.Conforms Schema.mjcf := made.root_conforms
  rw [show t.schema.kind = .mjcf from congrArg Schema.kind made.schema_eq, compile_mjcf]
  constructor
  · constructor
    · rintro ⟨robot, compiled⟩
      cases found : rootBody t.root (documentName surroundings t.root) with
      | error e =>
        rw [found] at compiled
        contradiction
      | ok first =>
        obtain ⟨world, below, inside⟩ := rootBody_eq_ok.mp found
        exact ⟨world, first, below, inside⟩
    · rintro ⟨world, first, below, inside⟩
      rw [rootBody_eq_ok.mpr ⟨world, below, inside⟩]
      exact ⟨_, rfl⟩
  · intro world first robot below inside compiled
    rw [rootBody_eq_ok.mpr ⟨world, below, inside⟩] at compiled
    obtain ⟨member, kind⟩ := Element.child?_eq_some inside
    have placed := (conforms.child (Element.child?_eq_some below).1).2
    obtain ⟨written, last, model⟩ := isModel_model surroundings t.root (documentName surroundings t.root) kind
    cases compiled
    exact model.mirrors conforms (placed.child member).2 kind

/-- A document whose bodies nest, with a contact between two of them and one with a body it lacks. -/
def hingedArmText : String :=
  "<mujoco><worldbody><body name='arm'><geom name='upper'/><joint name='elbow'/>"
    ++ "<body name='hand'><freejoint/><geom/></body></body></worldbody>"
    ++ "<contact><exclude body1='hand' body2='arm'/><exclude body1='arm' body2='leg'/></contact>"
    ++ "<actuator><motor joint='elbow'/></actuator></mujoco>"

def hingedArmWorld : Element :=
  element "worldbody" [] [element "body" [("name", "arm")] [element "geom" [("name", "upper")] [],
    element "joint" [("name", "elbow")] [],
    element "body" [("name", "hand")] [element "freejoint" [] [], element "geom" [] []]]]

def hingedArm : ElementTree :=
  .ofElement Schema.mjcf (element "mujoco" [] [hingedArmWorld,
    element "contact" [] [element "exclude" [("body1", "hand"), ("body2", "arm")] [],
      element "exclude" [("body1", "arm"), ("body2", "leg")] []],
    element "actuator" [] [element "motor" [("joint", "elbow")] []]])

theorem compile_mirrors_arm :
    ElementTree.read Schema.mjcf hingedArmText = .ok hingedArm ∧
    hingedArm.root.child? "worldbody" = some hingedArmWorld ∧
    ∃ first robot, hingedArmWorld.child? "body" = some first ∧
      compile (.ofSettings .standard) hingedArm.schema.kind hingedArm.root = .ok robot ∧
      Mirrors (.ofSettings .standard) hingedArm.root first robot := by
  have read : ElementTree.read SchemaKind.mjcf.schema hingedArmText = .ok hingedArm := by
    decide +kernel
  obtain ⟨compiles, mirrors⟩ := compile_mirrors (.read read) (.ofSettings .standard)
  obtain ⟨robot, compiled⟩ := compiles.mpr ⟨hingedArmWorld, _, by rfl, by rfl⟩
  exact ⟨read, by rfl, _, robot, by rfl, compiled, mirrors hingedArmWorld _ robot (by rfl) (by rfl) compiled⟩

end Articulation.Mjcf
