import Articulation.Load
import Articulation.Proofs.Body.Frames
import Articulation.Proofs.Mjcf.ChildClass
import Articulation.Proofs.Mjcf.Mirror
import Articulation.Proofs.Mjcf.Targets
/-! The coordinate mode of a document that leaves it to the settings. Everything is read and compiled in one
way in both modes; the mode only tells whether the frames written are taken as they are or each is made
relative to the frame written for what it stands in. -/
namespace Articulation

/-- The surroundings with a coordinate mode set. -/
def Surroundings.inMode (s : Surroundings) (mode : CoordinateMode) : Surroundings :=
  { s with settings := { s.settings with mjcf := { s.settings.mjcf with coordinate := mode } } }

/-- The relative poses of the bodies in pre-order. -/
def Robot.bodyPoses (robot : Robot) : List Pose := robot.linkage.bodies.map fun body => body.link.pose

/-- The later model is the earlier one with other frames on its tree: each is that of the earlier model,
seen from the frame that the body above, or the body around it, has in the earlier model. -/
structure Robot.Converted (before after : Robot) : Prop where
  apart : after = { before with linkage := after.linkage }
  root : before.linkage.root.frameless = after.linkage.root.frameless
  size : before.linkage.size = after.linkage.size
  seen : List.Forall₂ (fun a b : Body => a.link.SeenFrom (before.linkage.poseAbove a) b.link)
    before.linkage.bodies after.linkage.bodies

namespace Mjcf

variable {r : Rules} {surroundings : Surroundings} {mode : CoordinateMode}

/-! ### Reading -/

/-- The rules with a coordinate mode. -/
def Rules.inMode (r : Rules) (mode : CoordinateMode) : Rules := { r with coordinate := mode }

/-- A body is written down alike in every mode. -/
theorem body_inMode (parent inherited : Option String) (e : Element) :
    body (r.inMode mode) (surroundings.inMode mode) parent inherited e =
      body r surroundings parent inherited e := by
  induction e using Rose.induction generalizing parent inherited with
  | step tag children ih =>
    -- no part of a body reads the mode
    have steps : ∀ inherited b, children.foldlM
        (member (r.inMode mode) (surroundings.inMode mode) inherited) b =
        children.foldlM (member r surroundings inherited) b := by
      intro inherited b
      refine foldlM_congr (fun e listed b => ?_) b
      apply member_congr rfl
      case bodies => exact fun _ parent => ih e listed parent inherited
      case geoms => exact fun _ => rfl
      case joints => exact fun _ => rfl
      case frees => exact fun _ => rfl
      case masses => exact fun _ _ => rfl
    rw [body_eq, body_eq, Rose.children_node]
    simp only [steps]
    rfl

/-! ### Frames -/

theorem seenFrom_toRelative (above : Pose) (link : Link) :
    link.SeenFrom above (toRelative above link) := by
  constructor
  case pose => rfl
  case joints => rw [toRelative, List.map_map]; rfl
  case colliders => rw [toRelative, List.map_map]; rfl
  case drawables => rw [toRelative, List.map_map]; rfl
  case inertial => rw [toRelative, Option.map_map]; rfl

/-- The frames written are what a body is made relative to, not those that its conversion leaves. -/
theorem seenFrom_localize (above : Pose) (b : Body) : b.SeenFrom above (localize above b) := by
  induction b using Rose.induction generalizing above with
  | step link children ih =>
    rw [Body.SeenFrom, Body.withAbove, Body.withAboveAll_eq, localize, localizeAll_eq]
    refine .node (seenFrom_toRelative above link) ?_
    rw [List.forall₂_map_left_iff, List.forall₂_map_right_iff]
    exact List.forall₂_same.mpr fun child member => ih child member link.pose

theorem frameless_toRelative (above : Pose) (link : Link) :
    (toRelative above link).frameless = link.frameless := by
  have joints : (link.joints.map fun joint => { joint with pose := link.pose.relative joint.pose }).map
      Joint.frameless = link.joints.map Joint.frameless := by
    rw [List.map_map]
    rfl
  have colliders : (toRelative above link).colliders.map (Collider.reframed fun _ => .identity) =
      link.colliders.map (Collider.reframed fun _ => .identity) := by
    rw [toRelative, List.map_map]
    rfl
  have drawables : (toRelative above link).drawables.map (Drawable.reframed fun _ => .identity) =
      link.drawables.map (Drawable.reframed fun _ => .identity) := by
    rw [toRelative, List.map_map]
    rfl
  have inertial : ((toRelative above link).inertial.map fun i => { i with pose := .identity }) =
      link.inertial.map fun i => { i with pose := .identity } := by
    rw [toRelative, Option.map_map]
    rfl
  rw [Link.frameless, colliders, drawables, inertial, toRelative, joints, Link.frameless]

theorem frameless_localize (above : Pose) (b : Body) :
    (localize above b).frameless = b.frameless := by
  induction b using Rose.induction generalizing above with
  | step link children ih =>
    have below : (children.map (localize link.pose)).map Body.frameless =
        children.map Body.frameless := by
      rw [List.map_map]
      exact List.map_congr_left fun child member => ih child member _
    rw [localize, localizeAll_eq, Body.frameless_node, Body.frameless_node, below,
      frameless_toRelative]

theorem sameNames_of_frameless {t u : Linkage} (same : t.root.frameless = u.root.frameless) :
    t.SameNames u := by
  refine .of_map (f := Link.frameless) (fun _ => rfl) (fun link => ?_) same
  rw [Link.frameless, List.map_map]
  rfl

/-! ### Documents -/

/-- The document sets no coordinate mode of its own. -/
def LeavesMode (root : Element) : Prop :=
  ∀ compiler, root.child? "compiler" = some compiler → compiler.own.string? "coordinate" = none

theorem LeavesMode.rules {root : Element} (leaves : LeavesMode root) (surroundings : Surroundings)
    (mode : CoordinateMode) :
    documentRules (surroundings.inMode mode) root = (documentRules surroundings root).inMode mode := by
  have unset : ((root.child? "compiler").bind fun e => e.own.string? "coordinate") = none :=
    Option.bind_eq_none_iff.mpr leaves
  have set : setting (root.child? "compiler") "coordinate" CoordinateMode.ofKeyword? mode = mode := by
    rw [setting, unset]
    rfl
  rw [documentRules, Rules.ofDocument, Rules.inMode]
  exact congrArg (fun mode => Rules.mk _ _ mode _) set

theorem LeavesMode.linkage {root : Element} (leaves : LeavesMode root) (surroundings : Surroundings)
    (mode : CoordinateMode) (written : Body) :
    documentLinkage (surroundings.inMode mode) root written = .ofBody (resolved mode written) := by
  rw [documentLinkage, leaves.rules]
  rfl

/-- The run of a compilation up to its tree is the same in every mode. -/
theorem exists_model_inMode {root : Element} (leaves : LeavesMode root) (surroundings : Surroundings)
    (first : Element) (name : String) :
    ∃ (written : Body) (built : Session), ∀ mode, ∃ (drives : List Actuator) (driven last : Session),
      (actuators (documentRules surroundings root) (.ofBody (resolved mode written)) root).run built =
        (drives, driven) ∧
      (contactExclusions (.ofBody (resolved mode written)) root).run driven = ((), last) ∧
      model (surroundings.inMode mode) root first name =
        last.finish name (.ofBody (resolved mode written)) drives := by
  obtain ⟨written, _, named, prepared, built, _, _, declared, registered, compiled, _, _, _⟩ :=
    exists_model surroundings root first name
  refine ⟨written, built, fun mode => ?_⟩
  obtain ⟨written', drives, named', prepared', built', driven, last, declared', registered', compiled',
    actuated, excluded, whole⟩ := exists_model (surroundings.inMode mode) root first name
  cases declared.symm.trans declared'
  rw [leaves.rules] at registered' compiled' actuated
  cases registered.symm.trans registered'
  have located : located (surroundings.inMode mode) root = (located surroundings root).inMode mode := rfl
  rw [located, body_inMode] at compiled'
  cases compiled.symm.trans compiled'
  rw [leaves.linkage] at actuated excluded whole
  exact ⟨drives, driven, last, actuated, excluded, whole⟩

/-- The models of a document in the two modes. -/
theorem model_converted {root : Element} (leaves : LeavesMode root) (surroundings : Surroundings)
    (first : Element) (name : String) :
    Robot.Converted (model (surroundings.inMode .relative) root first name)
      (model (surroundings.inMode .world) root first name) := by
  obtain ⟨written, built, run⟩ := exists_model_inMode leaves surroundings first name
  obtain ⟨drives, driven, last, actuated, excluded, relative⟩ := run .relative
  obtain ⟨drives', driven', last', actuated', excluded', world⟩ := run .world
  obtain ⟨root, size⟩ := Linkage.frameless_ofBody (frameless_localize .identity written).symm
  -- bodies and joints have the same names in both, so that what refers to them is resolved alike
  have names : Linkage.SameNames (.ofBody written) (.ofBody (localize .identity written)) :=
    sameNames_of_frameless root
  rw [resolved, actuators_congr names] at actuated
  cases actuated.symm.trans actuated'
  rw [resolved, contactExclusions_congr names] at excluded
  cases excluded.symm.trans excluded'
  rw [relative, world]
  exact ⟨rfl, root, size, Linkage.seenFrom_ofBody (seenFrom_localize .identity written)⟩

/-- The coordinate mode that is set for a document without one changes frames only. In either mode the
document compiles, or fails for the same reason; in world mode the root has its relative frame seen from the
identity, every other body its frame seen from that of its parent, and what is on a body its frame seen from
that of the body, where all frames are those of the model in relative mode. -/
theorem compileTree_inMode {tree : ElementTree} (kind : tree.schema.kind = .mjcf)
    (leaves : LeavesMode tree.root) (surroundings : Surroundings) :
    Agree Robot.Converted (compileTree (surroundings.inMode .relative) tree)
      (compileTree (surroundings.inMode .world) tree) := by
  have each (mode : CoordinateMode) : compileTree (surroundings.inMode mode) tree = (do
      surroundings.settings.validate.mapError .settings
      (rootBody tree.root (documentName surroundings tree.root)).map fun first =>
        model (surroundings.inMode mode) tree.root first (documentName surroundings tree.root)) := by
    rw [compileTree, kind, compileElement, compile_mjcf]
    rfl
  rw [each, each]
  refine (Agree.refl (R := Eq) (fun _ => rfl) _).bind fun _ _ _ => ?_
  cases rootBody tree.root (documentName surroundings tree.root) with
  | error e => exact .error e
  | ok first => exact .ok (model_converted leaves surroundings first _)

def placedElement (kind : String) (position : List Float32) (children : List Element) : Element :=
  .node ⟨kind, .ofList [("pos", .floatArray position)]⟩ children

/-- A body in a body that is turned halfway round, with frames written for all that is on them. -/
def bentArm : ElementTree :=
  .ofElement Schema.mjcf (element "mujoco" [] [element "compiler" [("angle", "radian")] [],
    element "worldbody" [] [.node
      ⟨"body", .ofList [("pos", .floatArray [1, 0, 0]), ("quat", .floatArray [0, 0, 0, 1])]⟩
      [placedElement "geom" [1, 0, 1] [], placedElement "inertial" [1, 0, 2] [],
        placedElement "body" [1, 2, 0] [placedElement "joint" [1, 2, 3] []]]]])

theorem leavesMode_bentArm : LeavesMode bentArm.root := by
  intro compiler found
  rw [bentArm, ElementTree.root_ofElement] at found
  cases found
  rfl

theorem compileTree_inMode_bentArm :
    ∃ relative world,
      compileTree ((Surroundings.ofSettings .standard).inMode .relative) bentArm = .ok relative ∧
      compileTree ((Surroundings.ofSettings .standard).inMode .world) bentArm = .ok world ∧
      world.bodyNames = ["body_0", "body_1"] ∧ relative.Converted world ∧
      relative.bodyPoses = [⟨⟨1, 0, 0⟩, ⟨0, 0, 0, 1⟩⟩, ⟨⟨1, 2, 0⟩, ⟨1, 0, 0, 0⟩⟩] ∧
      world.bodyPoses = [⟨⟨1, 0, 0⟩, ⟨0, 0, 0, 1⟩⟩, ⟨⟨0, -2, 0⟩, ⟨0, 0, 0, -1⟩⟩] := by
  have before : Robot.bodyPoses <$> compileTree ((Surroundings.ofSettings .standard).inMode .relative)
      bentArm = .ok [⟨⟨1, 0, 0⟩, ⟨0, 0, 0, 1⟩⟩, ⟨⟨1, 2, 0⟩, ⟨1, 0, 0, 0⟩⟩] := by decide +kernel
  have after : (fun robot => (robot.bodyNames, robot.bodyPoses)) <$>
      compileTree ((Surroundings.ofSettings .standard).inMode .world) bentArm =
      .ok (["body_0", "body_1"], [⟨⟨1, 0, 0⟩, ⟨0, 0, 0, 1⟩⟩, ⟨⟨0, -2, 0⟩, ⟨0, 0, 0, -1⟩⟩]) := by
    decide +kernel
  obtain ⟨world, made, read⟩ := map_eq_ok.mp after
  obtain ⟨named, moved⟩ := Prod.mk.inj read
  have agree := @compileTree_inMode bentArm rfl leavesMode_bentArm (.ofSettings .standard)
  obtain ⟨relative, compiled, converted⟩ := agree.exists_left made
  obtain ⟨same, again, placed⟩ := map_eq_ok.mp before
  cases compiled.symm.trans again
  exact ⟨relative, world, compiled, made, named, converted, placed, moved⟩

end Mjcf

end Articulation
