import Articulation.Proofs.Geometry.Segments
import Articulation.Proofs.Mjcf.Coordinates
import Articulation.Proofs.Mjcf.Outcome
/-! Where everything on a body stands. Each frame is the one that its element writes, or that the ends of a
segment give; a free joint writes none, and stands at the identity. In the world mode all of them alike are
taken for frames in the world, and seen from that of the body. -/
namespace Articulation.Mjcf

/-! ### Frames as written -/

mutual
/-- The body elements in a body element, each with the class that it is read in. -/
def scopedTree (inherited : Option String) : Element → Rose (Option String × Element)
  | .node tag children =>
    .node (inherited, .node tag children) (scopedTrees (handedDown inherited tag) children)

def scopedTrees (inherited : Option String) : List Element → List (Rose (Option String × Element))
  | [] => []
  | e :: rest =>
    if isBody e then scopedTree inherited e :: scopedTrees inherited rest else scopedTrees inherited rest
end

/-- The body element with the class that it hands down, not the one that it is read in. -/
def handing (origin : Option String × Element) : Option String × Element :=
  (handedDown origin.1 origin.2.value, origin.2)

theorem scopedTrees_eq (inherited : Option String) (elements : List Element) :
    scopedTrees inherited elements = (elements.filter isBody).map (scopedTree inherited) := by
  induction elements with
  | nil => rfl
  | cons e rest ih =>
    rw [scopedTrees, ih, List.filter_cons]
    split <;> rfl

theorem map_scopedTree (inherited : Option String) (e : Element) :
    (scopedTree inherited e).map handing = bodyTree inherited e := by
  induction e using Rose.induction generalizing inherited with
  | step tag children ih =>
    rw [scopedTree, bodyTree, Rose.map, Rose.mapAll_eq, scopedTrees_eq, bodyTrees_eq, List.map_map]
    refine congrArg (Rose.node _) (List.map_congr_left fun child member => ?_)
    exact ih child (List.mem_of_mem_filter member) _

variable (r : Rules) (surroundings : Surroundings) (inherited : Option String) (e : Element)

/-- The frame that is written for a body. -/
def bodyFrame (origin : Option String × Element) : Pose :=
  (r.scope origin.1 origin.2).lookup.pose r.angle

def jointFrame : Pose := if e.kind = "joint" then (r.scope inherited e).lookup.pose r.angle else .identity

/-- The frame of a geom: that of its segment, if it has one, else the one that is written. -/
def geomFrame : Pose :=
  (r.scope inherited e).lookup.segment?.getD ((r.scope inherited e).lookup.pose r.angle)

def isSegment : Bool := (r.scope inherited e).lookup.segment?.isSome

/-- The frames of all on a link, from those of some elements by a change that is the same for all. -/
structure Stands (f : Pose → Pose) (elements : List Element) (link : Link) : Prop where
  joints : link.joints.map Joint.pose = (elements.filter isJoint).map fun e => f (jointFrame r inherited e)
  colliders : link.colliders.map (fun c => c.shape.pose) =
    (elements.filter isGeom).map fun e => f (geomFrame r inherited e)
  drawables : link.drawables.map (fun d => d.shape.pose) =
    (elements.filter isGeom).map fun e => f (geomFrame r inherited e)
  derived : link.colliders.map (fun c => c.shape.fromSegment) =
    (elements.filter isGeom).map (isSegment r inherited)
  drawn : link.drawables.map (fun d => d.shape.fromSegment) =
    (elements.filter isGeom).map (isSegment r inherited)

/-- The link is placed as its body element says. -/
structure Written (origin : Option String × Element) (link : Link) : Prop where
  pose : link.pose = bodyFrame r origin
  stands : Stands r (handing origin).1 id origin.2.children link

variable {r surroundings inherited e}

section

variable {f : Pose → Pose} {elements : List Element} {link : Link}
  (stands : Stands r inherited f elements link)

include stands

theorem Stands.joint (kind : isJoint e = true) (geom : isGeom e = false) {j : Joint}
    (frame : j.pose = f (jointFrame r inherited e)) :
    Stands r inherited f (elements ++ [e]) { link with joints := link.joints ++ [j] } := by
  constructor
  case joints => simp [stands.joints, kind, frame]
  case colliders => simp [stands.colliders, geom]
  case drawables => simp [stands.drawables, geom]
  case derived => simp [stands.derived, geom]
  case drawn => simp [stands.drawn, geom]

theorem Stands.geom (joint : isJoint e = false) (kind : isGeom e = true) {c : Collider} {d : Drawable}
    (frame : c.shape.pose = f (geomFrame r inherited e)) (segment : c.shape.fromSegment = isSegment r inherited e)
    (same : c.shape = d.shape) :
    Stands r inherited f (elements ++ [e]) { link with
      colliders := link.colliders ++ [c]
      drawables := link.drawables ++ [d] } := by
  constructor
  case joints => simp [stands.joints, joint]
  case colliders => simp [stands.colliders, kind, frame]
  case drawables => simp [stands.drawables, kind, ← same, frame]
  case derived => simp [stands.derived, kind, segment]
  case drawn => simp [stands.drawn, kind, ← same, segment]

theorem Stands.other (joint : isJoint e = false) (geom : isGeom e = false) (inertial : Option Inertial) :
    Stands r inherited f (elements ++ [e]) { link with inertial } := by
  constructor
  case joints => simp [stands.joints, joint]
  case colliders => simp [stands.colliders, geom]
  case drawables => simp [stands.drawables, geom]
  case derived => simp [stands.derived, geom]
  case drawn => simp [stands.drawn, geom]

end

/-! ### Parts -/

theorem pose_joint {s t : Session} {j : Joint} (run : (joint r inherited e).run s = (j, t)) :
    j.pose = (r.scope inherited e).lookup.pose r.angle := by
  obtain ⟨name, u, _, run⟩ := run_bind.mp run
  obtain ⟨rfl, _⟩ := run_pure.mp run
  rfl

theorem pose_freeJoint {s t : Session} {j : Joint} (run : (freeJoint e).run s = (j, t)) :
    j.pose = .identity ∧ j.type = .free := by
  obtain ⟨name, u, _, run⟩ := run_bind.mp run
  obtain ⟨rfl, _⟩ := run_pure.mp run
  exact ⟨rfl, rfl⟩

/-- Only a shape without a frame of its own takes the one that is written. -/
theorem framed_geom {s t : Session} {sides : Collider × Drawable}
    (run : (geom r surroundings inherited e).run s = (sides, t)) :
    sides.1.shape.pose = geomFrame r inherited e ∧
      sides.1.shape.fromSegment = isSegment r inherited e := by
  obtain ⟨shape, u, shaped, run⟩ := run_bind.mp run
  obtain ⟨name, v, _, run⟩ := run_bind.mp run
  obtain ⟨material, w, _, run⟩ := run_bind.mp run
  obtain ⟨rfl, _⟩ := run_pure.mp run
  obtain ⟨derived, own⟩ := Geometry.framed_ofGeom shaped
  dsimp only [collider]
  rw [geomFrame, isSegment]
  cases found : (r.scope inherited e).lookup.segment? with
  | none =>
    rw [found, Option.isSome_none] at derived
    rw [if_neg (by simp [derived])]
    exact ⟨rfl, derived⟩
  | some frame =>
    rw [found, Option.isSome_some] at derived
    rw [if_pos derived]
    exact ⟨own frame found, derived⟩

/-! ### Bodies -/

/-- What a run over some children of a body element has placed. -/
structure Placed (r : Rules) (inherited : Option String) (pose : Pose) (elements : List Element)
    (b : Body) : Prop where
  pose : b.link.pose = pose
  stands : Stands r inherited id elements b.link
  below : List.Forall₂ (fun x => Rose.Matches (Written r) (scopedTree inherited x))
    (elements.filter isBody) b.children

section

variable {pose : Pose} {elements : List Element} {b built : Body} {s t : Session}
  (before : Placed r inherited pose elements b)

include before

/-- One child element more, whatever its type. -/
theorem Placed.member
    (nested : e.kind = "body" → ∀ {parent : Option String} {s t : Session} {child : Body},
      (body r surroundings parent inherited e).run s = (child, t) →
      Rose.Matches (Written r) (scopedTree inherited e) child)
    (run : (member r surroundings inherited b e).run s = (built, t)) :
    Placed r inherited pose (elements ++ [e]) built := by
  obtain ⟨same, stands, below⟩ := before
  cases run_member run with
  | geom kind made =>
    obtain ⟨frame, segment⟩ := framed_geom made
    refine ⟨same, ?_, forall₂_filter_skip below (by simp [isBody, kind])⟩
    exact stands.geom (by simp [isJoint, kind]) (by simp [isGeom, kind]) frame segment (run_geom made).2.shape
  | @joint j t kind made =>
    have frame : j.pose = jointFrame r inherited e := by rw [pose_joint made, jointFrame, if_pos kind]
    refine ⟨same, ?_, forall₂_filter_skip below (by simp [isBody, kind])⟩
    exact stands.joint (by simp [isJoint, kind]) (by simp [isGeom, kind]) frame
  | @freeJoint j t kind made =>
    have frame : j.pose = jointFrame r inherited e := by
      rw [(pose_freeJoint made).1, jointFrame, if_neg (by simp [kind])]
    refine ⟨same, ?_, forall₂_filter_skip below (by simp [isBody, kind])⟩
    exact stands.joint (by simp [isJoint, kind]) (by simp [isGeom, kind]) frame
  | inertial kind made =>
    refine ⟨same, ?_, forall₂_filter_skip below (by simp [isBody, kind])⟩
    exact stands.other (by simp [isJoint, kind]) (by simp [isGeom, kind]) _
  | body kind made =>
    refine ⟨same, ?_, forall₂_filter_snoc below (by simp [isBody, kind]) (nested kind made)⟩
    exact stands.other (by simp [isJoint, kind]) (by simp [isGeom, kind]) b.link.inertial
  | other geom joint free _ body =>
    refine ⟨same, ?_, forall₂_filter_skip below (by simp [isBody, body])⟩
    exact stands.other (by simp [isJoint, joint, free]) (by simp [isGeom, geom]) b.link.inertial

end

theorem placed_nil (r : Rules) (inherited : Option String) (name : String) (pose : Pose) :
    Placed r inherited pose [] (.node { Link.ofName name with pose } []) :=
  ⟨rfl, ⟨rfl, rfl, rfl, rfl, rfl⟩, .nil⟩

theorem members_placed {pose : Pose} {children elements : List Element} {b built : Body} {s t : Session}
    (each : ∀ e : Element, e ∈ children → e.kind = "body" →
      ∀ {parent : Option String} {s t : Session} {child : Body},
      (body r surroundings parent inherited e).run s = (child, t) →
      Rose.Matches (Written r) (scopedTree inherited e) child)
    (before : Placed r inherited pose elements b)
    (run : (children.foldlM (member r surroundings inherited) b).run s = (built, t)) :
    Placed r inherited pose (elements ++ children) built := by
  induction children generalizing elements b s with
  | nil =>
    obtain ⟨rfl, _⟩ := run_pure.mp run
    rwa [List.append_nil]
  | cons e rest ih =>
    rw [List.foldlM_cons] at run
    obtain ⟨next, u, first, run⟩ := run_bind.mp run
    obtain ⟨here, later⟩ := List.forall_mem_cons.mp each
    rw [List.append_cons]
    exact ih later (before.member here first) run

theorem body_written {parent : Option String} {s t : Session} {b : Body} (kind : e.kind = "body")
    (run : (body r surroundings parent inherited e).run s = (b, t)) :
    Rose.Matches (Written r) (scopedTree inherited e) b := by
  induction e using Rose.induction generalizing parent inherited s t b with
  | step tag children ih =>
    have handed : handedDown inherited tag = _ := if_pos kind
    rw [body_eq, Element.own, Element.attributes, Rose.value_node, ← handed] at run
    obtain ⟨name, u, _, run⟩ := run_bind.mp run
    suffices placed : Placed r (handedDown inherited tag) (bodyFrame r (inherited, .node tag children))
        children b by
      refine .of_parts ⟨placed.pose, placed.stands⟩ ?_
      rw [scopedTree, Rose.children_node, scopedTrees_eq]
      exact List.forall₂_map_left_iff.mpr placed.below
    -- excluding the contact with a parent moves nothing
    cases parent with
    | none => exact members_placed (fun e member kind => ih e member kind) (placed_nil _ _ name _) run
    | some parent =>
      obtain ⟨_, v, _, run⟩ := run_bind.mp run
      exact members_placed (fun e member kind => ih e member kind) (placed_nil _ _ name _) run

/-! ### Models -/

/-- How a frame on a body is changed in a coordinate mode, by the frame written for the body. -/
def conversion (mode : CoordinateMode) (body : Pose) : Pose → Pose :=
  match mode with
  | .relative => id
  | .world => body.relative

/-- All on the link stands as its body element says, in a coordinate mode. -/
def Stood (r : Rules) (mode : CoordinateMode) (origin : Option String × Element) (link : Link) : Prop :=
  Stands r (handing origin).1 (conversion mode (bodyFrame r origin)) origin.2.children link

theorem Written.seen {origin : Option String × Element} {before after : Link} {above : Pose}
    (written : Written r origin before) (seen : before.SeenFrom above after)
    (reframed : before.Reframed after) : Stood r .world origin after := by
  obtain ⟨pose, stands⟩ := written
  obtain ⟨g, colliders, drawables⟩ := reframed.shapes
  constructor
  case joints =>
    rw [seen.joints, pose]
    exact map_map_eq _ stands.joints
  case colliders =>
    rw [seen.colliders, pose]
    exact map_map_eq _ stands.colliders
  case drawables =>
    rw [seen.drawables, pose]
    exact map_map_eq _ stands.drawables
  case derived =>
    rw [colliders, List.map_map]
    exact stands.derived
  case drawn =>
    rw [drawables, List.map_map]
    exact stands.drawn

theorem seen_localize (above : Pose) (b : Body) :
    Rose.Matches (fun before after => (∃ above, Link.SeenFrom above before after) ∧ before.Reframed after)
      b (localize above b) := by
  induction b using Rose.induction generalizing above with
  | step link children ih =>
    rw [localize, localizeAll_eq]
    refine .node ⟨⟨above, seenFrom_toRelative above link⟩, reframed_toRelative above link⟩ ?_
    exact List.forall₂_map_right_iff.mpr (List.forall₂_same.mpr fun child member => ih child member _)

theorem stood_resolved {mode : CoordinateMode} {written : Body}
    (same : Rose.Matches (Written r) (scopedTree inherited e) written) :
    Rose.Matches (Stood r mode) (scopedTree inherited e) (resolved mode written) := by
  cases mode with
  | relative => exact same.imp Written.stands
  | world =>
    refine same.trans (seen_localize .identity written) fun placed both => ?_
    obtain ⟨⟨above, seen⟩, reframed⟩ := both
    exact placed.seen seen reframed

/-- Finishing moves nothing. -/
theorem Stood.of_bare {mode : CoordinateMode} {origin : Option String × Element} {before after : Link}
    (stood : Stood r mode origin before) (same : before.bare = after.bare) : Stood r mode origin after := by
  have colliders : before.colliders = after.colliders :=
    show before.bare.colliders = after.bare.colliders from congrArg Link.colliders same
  have drawables : before.drawables = after.drawables :=
    show before.bare.drawables = after.bare.drawables from congrArg Link.drawables same
  constructor
  case joints => rw [← after.poses_bare, ← same, before.poses_bare, stood.joints]
  case colliders => rw [← colliders, stood.colliders]
  case drawables => rw [← drawables, stood.drawables]
  case derived => rw [← colliders, stood.derived]
  case drawn => rw [← drawables, stood.drawn]

/-- In every model of a document each link is that of its body element, and all on it stands as the element
says. -/
theorem compile_stood {root : Element} {kind : SchemaKind} {robot : Robot}
    (compiled : compile surroundings kind root = .ok robot) :
    ∃ world first, root.child? "worldbody" = some world ∧ world.child? "body" = some first ∧
      Rose.Matches (fun origin link =>
          IsLinkOf (documentRules surroundings root) (located surroundings root) (handing origin) link ∧
          Stood (documentRules surroundings root) (documentRules surroundings root).coordinate origin link)
        (scopedTree none first) robot.linkage.root := by
  have mjcf : kind = .mjcf := by
    by_contra other
    simp only [compile, if_pos other, bind, Except.bind] at compiled
    contradiction
  rw [mjcf, compile_mjcf] at compiled
  cases found : rootBody root (documentName surroundings root) with
  | error e =>
    rw [found] at compiled
    contradiction
  | ok first =>
    rw [found] at compiled
    cases compiled
    obtain ⟨world, below, inside⟩ := rootBody_eq_ok.mp found
    have body := (Element.child?_eq_some inside).2
    obtain ⟨written, drives, _, prepared, built, _, last, _, _, made, _, _, whole⟩ :=
      exists_model surroundings root first (documentName surroundings root)
    have linkage : (model surroundings root first (documentName surroundings root)).linkage =
        documentLinkage surroundings root written := congrArg Robot.linkage whole
    refine ⟨world, first, below, inside, ?_⟩
    rw [linkage]
    apply Rose.Matches.and
    · have links := (run_body body made).same.trans (reframed_documentLinkage surroundings root written)
        IsLinkOf.reframed
      rw [← map_scopedTree] at links
      exact links.map_left
    · refine (stood_resolved (body_written body made)).trans
        (Rose.Matches.of_map_eq (Linkage.bare_ofBody _).symm) Stood.of_bare

/-! ### Free joints -/

theorem IsJointOf.free {j : Joint} (made : IsJointOf r inherited e j) (kind : e.kind = "freejoint") :
    j.type = .free := by
  obtain ⟨s, same⟩ := made.made
  rw [jointOf, if_neg (by simp [kind])] at same
  exact (congrArg Joint.type same).symm.trans (pose_freeJoint (s := s) rfl).2

/-- The joints on a link are those of the elements in its body element. A free one stands at the frame of the
body where frames are relative; where they are those of the world, it stands at the origin of the world. -/
def HasJoints (r : Rules) (origin : Option String × Element) (link : Link) : Prop :=
  List.Forall₂ (fun e j => IsJointOf r (handing origin).1 e j ∧
      (e.kind = "freejoint" → j.type = .free ∧
        j.pose = match r.coordinate with
          | .relative => .identity
          | .world => (bodyFrame r origin).relative .identity))
    (origin.2.children.filter isJoint) link.joints

/-- A free joint has no frame of its own to write, and in a document with relative frames it is at its body's,
at any depth. In the world mode the identity that it has instead is converted like a frame that was written. -/
theorem compile_freeJoints {root : Element} {kind : SchemaKind} {robot : Robot}
    (compiled : compile surroundings kind root = .ok robot) :
    ∃ world first, root.child? "worldbody" = some world ∧ world.child? "body" = some first ∧
      Rose.Matches (HasJoints (documentRules surroundings root)) (scopedTree none first)
        robot.linkage.root := by
  obtain ⟨world, first, below, inside, tree⟩ := compile_stood compiled
  refine ⟨world, first, below, inside, tree.imp fun {origin link} both => ?_⟩
  obtain ⟨same, stood⟩ := both
  have frames := (forall₂_of_map_eq stood.joints).flip
  refine (forall₂_and same.holds.joints frames).imp fun e j both => ⟨both.1, fun free => ?_⟩
  obtain ⟨made, frame⟩ := both
  have unwritten : jointFrame (documentRules surroundings root) (handing origin).1 e = .identity :=
    if_neg (by simp [free])
  constructor
  · exact made.free free
  · rw [frame, unwritten]
    cases (documentRules surroundings root).coordinate <;> rfl

/-- A body in a body, both free to move, with frames written in the world. -/
def raftText : String :=
  "<mujoco><compiler coordinate='global'/><worldbody><body name='raft' pos='1 2 3'><freejoint name='drift'/>"
    ++ "<body name='crate' pos='1 2 5'><freejoint name='slip'/></body></body></worldbody></mujoco>"

def raftWorld : Element :=
  element "worldbody" [] [.node ⟨"body", .ofList [("name", .string "raft"), ("pos", .floatArray [1, 2, 3])]⟩
    [element "freejoint" [("name", "drift")] [],
      .node ⟨"body", .ofList [("name", .string "crate"), ("pos", .floatArray [1, 2, 5])]⟩
        [element "freejoint" [("name", "slip")] []]]]

def raft : ElementTree :=
  .ofElement Schema.mjcf (element "mujoco" [] [element "compiler" [("coordinate", "global")] [], raftWorld])

theorem read_raft : ElementTree.read Schema.mjcf raftText = .ok raft := by decide +kernel

theorem compile_freeJoints_raft :
    ∃ robot, compile (.ofSettings .standard) .mjcf raft.root = .ok robot ∧
      robot.bodyNames = ["raft", "crate"] ∧
      ∃ world first, raft.root.child? "worldbody" = some world ∧ world.child? "body" = some first ∧
        Rose.Matches (HasJoints (documentRules (.ofSettings .standard) raft.root)) (scopedTree none first)
          robot.linkage.root := by
  have names : Robot.bodyNames <$> compile (.ofSettings .standard) .mjcf raft.root =
      .ok ["raft", "crate"] := by decide +kernel
  obtain ⟨robot, compiled, named⟩ := map_eq_ok.mp names
  exact ⟨robot, compiled, named, compile_freeJoints compiled⟩

/-- The free joints of the raft and of what is on it are away from their bodies. -/
theorem raft_adrift :
    ElementTree.read Schema.mjcf raftText = .ok raft ∧
    (fun robot => robot.linkage.bodies.map fun b : Body => b.link.joints.map fun j => (j.type, j.pose)) <$>
        compile (.ofSettings .standard) .mjcf raft.root =
      .ok [[(.free, ⟨⟨-1, -2, -3⟩, .identity⟩)], [(.free, ⟨⟨-1, -2, -5⟩, .identity⟩)]] ∧
    (⟨⟨-1, -2, -3⟩, .identity⟩ : Pose) ≠ .identity ∧ (⟨⟨-1, -2, -5⟩, .identity⟩ : Pose) ≠ .identity := by
  refine ⟨read_raft, ?_, ?_, ?_⟩
  all_goals decide +kernel

end Articulation.Mjcf
