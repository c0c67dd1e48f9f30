import Articulation.Proofs.Assembly.Tree
import Articulation.Proofs.Body.Finishing
import Articulation.Proofs.Rlsim.Contents
import Articulation.Proofs.Rlsim.Rooted
/-! When a document compiles, and the linkage it compiles to. The linkage has one body for each joint and
mirrors the parent indices: the body of a joint hangs below the body of its parent, siblings in the order
of their indices, and carries the joint, its collider and its drawables, whether it is the root or not. -/
namespace Articulation.Rlsim
open Assembly

variable {document : Document} {up : UpAxis}

/-! ### Names -/

theorem names_eq (bounded : document.bodies.length ≤ document.joints.length) :
    document.names = bodyNames document := by
  have length : document.names.length = document.joints.length := by
    rw [Document.names, List.length_append, List.length_map, List.length_map, List.length_drop]
    exact Nat.add_sub_cancel' bounded
  refine List.ext_getElem (by simpa [bodyNames] using length) fun i first second => ?_
  have same := getElem?_names (length ▸ first)
  rw [List.getElem?_eq_getElem first] at same
  simpa [bodyNames] using Option.some.inj same

/-! ### Compiling -/

theorem build_of_inBounds (surroundings : Surroundings) (sound : document.InBounds) :
    ∃ (exclusions : List (String × String)) (finish : Body → List (String × String) → Robot),
      (∀ tree pairs, (finish tree pairs).linkage = .ofBody tree) ∧
      build surroundings document =
        match assembleInto exclusions (bodiesAt document (upAxis surroundings.settings.rlsim document))
            (connectionsAt document (upAxis surroundings.settings.rlsim document)) with
        | (.error e, _) => .error (.assembly e)
        | (.ok tree, pairs) => .ok (finish tree pairs) := by
  have none : document.bodies[document.joints.length]? = none := List.getElem?_eq_none sound.bodies
  obtain ⟨ps, parents⟩ := parents_isOk.mpr sound.parents
  obtain ⟨js, joints⟩ := drawableJoints_isOk.mpr sound.drawables
  have compiled := @parts_fst (upAxis surroundings.settings.rlsim document) document .start
  unfold build
  simp only [none, parents, joints, bind, Except.bind, pure, Except.pure]
  generalize (parts document (upAxis surroundings.settings.rlsim document)).run .start = result at *
  obtain ⟨⟨links, drawables⟩, session⟩ := result
  cases compiled
  refine ⟨session.exclusions, fun tree exclusions => { session with exclusions }.finish
    (surroundings.modelName Option.none "rlsim") (.ofBody tree)
    (actuators surroundings.settings.rlsim document (.ofBody tree)), fun _ _ => rfl, ?_⟩
  dsimp only
  rw [bodies_eq (parents_eq_ok parents) (drawableJoints_eq_ok joints),
    connections_eq (parents_eq_ok parents)]
  generalize assembleInto _ _ _ = outcome
  obtain ⟨tree, exclusions⟩ := outcome
  cases tree with
  | error e => rfl
  | ok tree => rfl

theorem build_of_not_inBounds (surroundings : Surroundings) (unsound : ¬ document.InBounds) :
    ∃ e, build surroundings document = .error e := by
  unfold build
  cases extra : document.bodies[document.joints.length]? with
  | some body => exact ⟨_, by simp only [extra]; rfl⟩
  | none =>
    cases parents : parents document with
    | error e => exact ⟨e, by simp only [extra]; rfl⟩
    | ok ps =>
      cases joints : drawableJoints document with
      | error e => exact ⟨e, by simp only [extra]; rfl⟩
      | ok js =>
        refine absurd ⟨List.getElem?_eq_none_iff.mp extra, ?_, ?_⟩ unsound
        · exact parents_isOk.mp ⟨ps, parents⟩
        · exact drawableJoints_isOk.mp ⟨js, joints⟩

/-- A document compiles exactly if its indices are in bounds, its bodies have distinct names and its
parent indices form a rooted tree. -/
theorem build_isOk_iff (surroundings : Surroundings) (document : Document) :
    (∃ robot, build surroundings document = .ok robot) ↔
      document.InBounds ∧ (bodyNames document).Nodup ∧ ∃ root, document.IsRooted root := by
  by_cases sound : document.InBounds
  · obtain ⟨exclusions, finish, _, built⟩ := build_of_inBounds surroundings sound
    have assembled := @outcome_isOk (bodiesAt document (upAxis surroundings.settings.rlsim document))
      (connectionsAt document (upAxis surroundings.settings.rlsim document)) exclusions
    rw [names_bodiesAt] at assembled
    have compiles : (∃ robot, build surroundings document = .ok robot) ↔
        ∃ tree, (assembleInto exclusions (bodiesAt document (upAxis surroundings.settings.rlsim document))
          (connectionsAt document (upAxis surroundings.settings.rlsim document))).1 = .ok tree := by
      rw [built]
      generalize assembleInto _ _ _ = outcome
      obtain ⟨tree, pairs⟩ := outcome
      cases tree with
      | error e => simp
      | ok tree => exact ⟨fun _ => ⟨tree, rfl⟩, fun _ => ⟨_, rfl⟩⟩
    rw [compiles, assembled]
    constructor
    · rintro ⟨distinct, _, spans⟩
      exact ⟨sound, distinct, (spans_iff sound distinct).mp spans⟩
    · rintro ⟨_, distinct, rooted⟩
      exact ⟨distinct, sound.known, (spans_iff sound distinct).mpr rooted⟩
  · obtain ⟨e, failed⟩ := build_of_not_inBounds surroundings sound
    constructor
    · rintro ⟨robot, built⟩
      cases failed.symm.trans built
    · rintro ⟨inBounds, _⟩
      exact absurd inBounds sound

/-! ### The assembled tree -/

/-- The complete link of a joint with its position. -/
def linkOf (document : Document) (up : UpAxis) (d : JointDefinition × Nat) : Link :=
  { linkAt document up d with
    joints := [joint d.1]
    drawables := (document.drawables.filter fun shape => shape.joint == (d.2 : Int)).map (drawn up) }

/-- The positions of the joints below a joint, in order. -/
def childrenOf (document : Document) (i : Nat) : List Nat :=
  (document.joints.zipIdx.filter fun d => d.1.parent == (i : Int)).map (·.2)

theorem lt_of_childrenOf {i k : Nat} (below : k ∈ childrenOf document i) : k < document.joints.length := by
  obtain ⟨⟨d, k⟩, listed, rfl⟩ := List.mem_map.mp below
  exact lt_of_joint (List.mem_zipIdx_iff_getElem?.mp (List.mem_filter.mp listed).1)

/-- Bodies that are called after the joints below a joint have the names of these positions. -/
theorem forall₂_names {i : Nat} {bodies : List Body}
    (same : bodies.map Body.name = (childrenOf document i).map (bodyName document)) :
    List.Forall₂ (fun k (body : Body) => document.names[k]? = some body.name) (childrenOf document i)
      bodies := by
  have inside : ∀ k ∈ childrenOf document i, k < document.joints.length := fun _ => lt_of_childrenOf
  refine ((List.forall₂_and_left _ _).mpr ⟨inside, forall₂_of_map_eq same.symm⟩).imp fun k body paired => ?_
  rw [getElem?_names paired.1, paired.2]

theorem mem_bodiesAt {body : Body} :
    body ∈ bodiesAt document up ↔
      ∃ i d, document.joints[i]? = some d ∧ bodyAt document up (d, i) = body := by
  simp only [bodiesAt, List.mem_map, Prod.exists, List.mem_zipIdx_iff_getElem?]
  exact exists_comm

theorem childless_bodiesAt (document : Document) (up : UpAxis) :
    ∀ body ∈ bodiesAt document up, body.children = [] := by
  intro body member
  obtain ⟨i, d, _, rfl⟩ := mem_bodiesAt.mp member
  rfl

section

variable {tree : Body} (mirror : IsTreeOf (bodiesAt document up) (connectionsAt document up) tree)
  {body : Body} (member : body ∈ tree.bodies) {i : Nat} {d : JointDefinition}
  (found : document.joints[i]? = some d) (named : body.name = bodyName document i)

include mirror

theorem distinct_names : (bodyNames document).Nodup := by
  rw [← names_bodiesAt document up]
  exact mirror.distinct

/-- Of the bodies given one alone has the name. -/
theorem eq_of_name {j : Nat} {x : JointDefinition} (first : document.joints[i]? = some d)
    (second : document.joints[j]? = some x) (same : bodyName document i = bodyName document j) :
    i = j ∧ d = x := by
  obtain rfl := bodyName_inj (distinct_names mirror) (lt_of_joint first) (lt_of_joint second) same
  exact ⟨rfl, Option.some.inj (first.symm.trans second)⟩

/-- The root is the body of the joint without a parent. -/
theorem name_of_rooted (sound : document.InBounds) {root : Nat} (rooted : document.IsRooted root) :
    tree.name = bodyName document root := by
  obtain ⟨given, known, same⟩ := mirror.rooted
  obtain ⟨j, x, other, rfl⟩ := mem_bodiesAt.mp known
  have named : tree.name = bodyName document j := congrArg Link.name same
  have absent : x.parent = noIndex := by
    by_contra present
    obtain ⟨parent, place, _⟩ := sound.exists_parent other present
    exact mirror.top _ (mem_connectionsAt.mpr ⟨j, x, parent, other, place, rfl⟩) named.symm
  rw [named, (rooted.alone j x other).mp absent]

include member found named

/-- Root or not, the body of a joint has its complete link. -/
theorem link_of_mem : body.link = linkOf document up (d, i) := by
  rcases mirror.hanging body member with rfl | ⟨c, listed, given, known, same, link⟩
  · obtain ⟨given, known, same⟩ := mirror.rooted
    obtain ⟨j, x, other, rfl⟩ := mem_bodiesAt.mp known
    have names : bodyName document i = bodyName document j := by
      rw [← named, Body.name, same]
      rfl
    obtain ⟨rfl, rfl⟩ := eq_of_name mirror found other names
    have alone : position? d.parent = none := by
      cases place : position? d.parent with
      | none => rfl
      | some parent =>
        exact absurd named.symm
          (mirror.top _ (mem_connectionsAt.mpr ⟨i, d, parent, found, place, rfl⟩))
    rw [same]
    simp only [bodyAt, linkOf, Body.link, Rose.value_node, alone, Option.isNone_none, if_true]
  · obtain ⟨j, x, other, rfl⟩ := mem_bodiesAt.mp known
    obtain ⟨k, y, parent, origin, place, rfl⟩ := mem_connectionsAt.mp listed
    have names : bodyName document i = bodyName document j := by
      rw [← named, Body.name, link]
      rfl
    obtain ⟨rfl, rfl⟩ := eq_of_name mirror found other names
    obtain ⟨rfl, rfl⟩ := eq_of_name mirror found origin same
    rw [link]
    simp only [bodyAt, linkOf, Body.link, Rose.value_node, place, Option.isNone_some,
      Bool.false_eq_true, if_false, List.nil_append]
    rfl

/-- The children of the body of a joint are the bodies of the joints below it. -/
theorem children_of_mem (sound : document.InBounds) :
    body.children.map Body.name = (childrenOf document i).map (bodyName document) := by
  rw [mirror.names_below member, named, connectionsAt, childrenOf, List.map_map]
  refine filter_filterMap fun x listed => ?_
  obtain ⟨y, j⟩ := x
  have other := List.mem_zipIdx_iff_getElem?.mp listed
  cases place : position? y.parent with
  | none =>
    have absent := position?_eq_none.mp place
    refine .inl ⟨by rw [connectionAt?, place]; rfl, ?_⟩
    simp [absent, noIndex]
  | some parent =>
    have follows := (sound.position_iff other).mp place
    have inside := sound.parent_lt other follows
    refine .inr ⟨_, by rw [connectionAt?, place]; rfl, ?_, rfl⟩
    rw [Bool.eq_iff_iff, beq_iff_eq, beq_iff_eq, follows, Int.natCast_inj]
    exact ⟨bodyName_inj (distinct_names mirror) inside (lt_of_joint found), congrArg (bodyName document)⟩

end

/-! ### The compiled linkage -/

/-- What the body of a joint is called, where it stands and what it holds in a compiled linkage. -/
structure IsBodyOf (document : Document) (up : UpAxis) (i : Nat) (d : JointDefinition) (body : Body) :
    Prop where
  name : document.names[i]? = some body.name
  pose : IsFrameOf up d.frame body.link.pose
  joints : ∃ only, body.link.joints = [only] ∧ IsJointOf d only
  colliders : List.Forall₂ (IsColliderOf up) document.bodies[i]?.toList body.link.colliders
  drawables : List.Forall₂ (IsDrawableOf up)
    (document.drawables.filter fun shape => shape.joint == (i : Int)) body.link.drawables
  children : List.Forall₂ (fun k (child : Body) => document.names[k]? = some child.name)
    (childrenOf document i) body.children

/-- A finished link of a joint holds that joint alone. -/
theorem joints_of_bare {link : Link} {i : Nat} {d : JointDefinition}
    (same : link.bare = (linkOf document up (d, i)).bare) :
    ∃ owner world, link.joints = [{ joint d with pose := .identity, owner, world }] := by
  have joints := congrArg Link.joints same
  obtain ⟨only, alone, kept⟩ := List.map_eq_singleton_iff.mp joints
  have whole : only = { only.bare with owner := only.owner, world := only.world } := rfl
  rw [kept] at whole
  exact ⟨only.owner, only.world, alone.trans (congrArg (fun joint => [joint]) whole)⟩

theorem isBodyOf_of_bare {body finished : Body} {i : Nat} {d : JointDefinition}
    (found : document.joints[i]? = some d) (bare : finished.bare = body.bare)
    (link : body.link = linkOf document up (d, i))
    (children : body.children.map Body.name = (childrenOf document i).map (bodyName document)) :
    IsBodyOf document up i d finished := by
  have same : finished.link.bare = (linkOf document up (d, i)).bare := by
    rw [← Body.link_bare, bare, Body.link_bare, link]
  have name : finished.name = bodyName document i := congrArg Link.name same
  have pose : finished.link.pose = d.frame.pose up := congrArg Link.pose same
  have colliders : finished.link.colliders = document.bodies[i]?.toList.map (definedCollider up) :=
    congrArg Link.colliders same
  have drawables : finished.link.drawables = (document.drawables.filter fun shape =>
      shape.joint == (i : Int)).map (drawn up) := congrArg Link.drawables same
  obtain ⟨owner, world, joints⟩ := joints_of_bare same
  constructor
  case name => rw [name, getElem?_names (lt_of_joint found)]
  case pose => exact pose ▸ isFrameOf_pose up d.frame
  case joints => exact ⟨_, joints, isJointOf_joint d owner world⟩
  case colliders =>
    rw [colliders, List.forall₂_map_right_iff, List.forall₂_same]
    exact fun definition _ => isColliderOf_definedCollider up definition
  case drawables =>
    rw [drawables, List.forall₂_map_right_iff, List.forall₂_same]
    exact fun definition _ => isDrawableOf_drawn up definition
  case children =>
    have names := congrArg (fun body : Body => body.children.map Body.name) bare
    simp only [Body.children_bare, List.map_map, Function.comp_def, Body.name_bare] at names
    exact forall₂_names (names.trans children)

/-- The finished tree has one body for each joint, with what the document puts on it. -/
theorem ofBody_mirrors {tree : Body} (sound : document.InBounds)
    (mirror : IsTreeOf (bodiesAt document up) (connectionsAt document up) tree) :
    (Linkage.ofBody tree).bodies.length = document.joints.length ∧
    ((Linkage.ofBody tree).bodies.map Body.name).Perm document.names ∧
    (∀ root, document.IsRooted root → document.names[root]? = some (Linkage.ofBody tree).root.name) ∧
    ∀ i d, document.joints[i]? = some d →
      ∃ body ∈ (Linkage.ofBody tree).bodies, IsBodyOf document up i d body := by
  have names := mirror.names
  rw [names_bodiesAt] at names
  have listed := names
  rw [← Linkage.names_ofBody] at listed
  refine ⟨?_, names_eq sound.bodies ▸ listed, fun root rooted => ?_, fun i d found => ?_⟩
  · simpa [bodyNames] using listed.length_eq
  · rw [getElem?_names rooted.present, ← name_of_rooted mirror sound rooted, ← Body.name_bare tree,
      ← Linkage.bare_ofBody, Body.name_bare]
  · have declared := mem_bodyNames.mpr ⟨i, lt_of_joint found, rfl⟩
    obtain ⟨body, member, named⟩ := List.mem_map.mp (names.mem_iff.mpr declared)
    obtain ⟨finished, present, bare⟩ := Linkage.mem_ofBody member
    exact ⟨finished, present, isBodyOf_of_bare found bare (link_of_mem mirror member found named)
      (children_of_mem mirror member found named sound)⟩

/-- A document compiles exactly if no body is without a joint, its indices are in bounds, the names of its
bodies are distinct, and its parent indices form a rooted tree. The linkage is then that tree: one body
for each joint, the root that of the joint without a parent, below every body those of the joints with
its index, in their order. Every body stands where its joint is attached, with the axis that points up
turned into z, and on it are its joint, its collider if one is defined, and the drawables that stand on
the joint. -/
theorem build_mirrors (surroundings : Surroundings) (document : Document) :
    ((∃ robot, build surroundings document = .ok robot) ↔
      document.bodies.length ≤ document.joints.length ∧
      (∀ d ∈ document.joints, d.parent = -1 ∨ 0 ≤ d.parent ∧ d.parent < document.joints.length) ∧
      (∀ d ∈ document.drawables, 0 ≤ d.joint ∧ d.joint < document.joints.length) ∧
      document.names.Nodup ∧
      ∃ root, document.IsRooted root) ∧
    ∀ robot, build surroundings document = .ok robot →
      robot.linkage.bodies.length = document.joints.length ∧
      (robot.linkage.bodies.map Body.name).Perm document.names ∧
      (∀ root, document.IsRooted root → document.names[root]? = some robot.linkage.root.name) ∧
      ∃ up, PointsUp surroundings.settings.rlsim document up ∧
        ∀ i d, document.joints[i]? = some d →
          ∃ body ∈ robot.linkage.bodies, IsBodyOf document up i d body := by
  have compiles := build_isOk_iff surroundings document
  refine ⟨?_, fun robot built => ?_⟩
  · rw [compiles]
    constructor
    · rintro ⟨⟨bodies, parents, drawables⟩, distinct, rooted⟩
      exact ⟨bodies, parents, drawables, names_eq bodies ▸ distinct, rooted⟩
    · rintro ⟨bodies, parents, drawables, distinct, rooted⟩
      exact ⟨⟨bodies, parents, drawables⟩, names_eq bodies ▸ distinct, rooted⟩
  · obtain ⟨sound, distinct, _⟩ := compiles.mp ⟨robot, built⟩
    obtain ⟨exclusions, finish, finished, assembled⟩ := build_of_inBounds surroundings sound
    rw [built] at assembled
    split at assembled
    · contradiction
    · rename_i tree pairs outcome
      cases assembled
      obtain ⟨p, stands, erected, _⟩ := assembleInto_eq_ok outcome
      rw [finished]
      have mirror := erect_isTreeOf (childless_bodiesAt document _) stands erected
      obtain ⟨count, names, root, bodies⟩ := ofBody_mirrors sound mirror
      exact ⟨count, names, root, _, pointsUp_upAxis _ _, bodies⟩

/-- A hinge below the joint of an index. -/
def limb (name : String) (parent : Int) (frame : Attachment) : JointDefinition :=
  ⟨name, "hinge", parent, 0, 0, 0, frame⟩

/-- Joints of which some stand before their parents, with y pointing up. The first has a body definition and
a shape to draw. -/
def torso : Document where
  joints := [limb "hand" 1 ⟨⟨1, 2, 3⟩, ⟨0.25, 0.5, 0.75⟩⟩, limb "arm" 2 ⟨⟨4, 0, 0⟩, .zero⟩,
    limb "base" (-1) ⟨.zero, .zero⟩, limb "head" 2 ⟨⟨0, 5, 0⟩, .zero⟩]
  bodies := [⟨"palm", "capsule", 2, ⟨0.5, 6, 4⟩, ⟨⟨0, 0.5, 0⟩, .zero⟩⟩]
  drawables := [⟨"glove", "box", 0, ⟨1, 2, 3⟩, ⟨⟨0, 0, 0.5⟩, .zero⟩, ⟨1, 0, 0, 1⟩⟩]
  worldUp := none

theorem build_mirrors_torso :
    ∃ robot, build (.ofSettings .standard) torso = .ok robot ∧ robot.linkage.bodies.length = 4 ∧
      (∃ root, torso.IsRooted root) ∧
      (∃ body ∈ robot.linkage.bodies, body.name = "base" ∧
        body.children.map Body.name = ["arm", "head"]) ∧
      ∃ body ∈ robot.linkage.bodies, body.name = "palm" ∧
        body.link.pose = ⟨⟨3, 1, 2⟩, .ofEuler ⟨0.75, 0.25, 0.5⟩⟩ ∧
        (body.link.colliders.map fun c => (c.name, c.shape.size, c.shape.pose.position)) =
          [("palm", ⟨2, 6, 0⟩, ⟨0, 0, 0.5⟩)] ∧
        (body.link.drawables.map fun d => (d.name, d.shape.size, d.shape.pose.position)) =
          [("glove", ⟨3, 1, 2⟩, ⟨0.5, 0, 0⟩)] := by
  obtain ⟨compiles, mirrors⟩ := build_mirrors (.ofSettings .standard) torso
  have good : (build (.ofSettings .standard) torso).isOk = true := by decide +kernel
  cases built : build (.ofSettings .standard) torso with
  | error e => rw [built] at good; contradiction
  | ok robot =>
    obtain ⟨_, _, _, _, rooted⟩ := compiles.mp ⟨robot, built⟩
    obtain ⟨count, _, _, up, points, carried⟩ := mirrors robot built
    obtain rfl : up = .y := points.unique
    obtain ⟨base, inside, is⟩ := carried 2 _ rfl
    obtain ⟨palm, present, on⟩ := carried 0 _ rfl
    have below : childrenOf torso 2 = [1, 3] := by decide
    have names := is.children
    rw [below] at names
    obtain ⟨arm, _, first, names, children⟩ := List.forall₂_cons_left_iff.mp names
    obtain ⟨head, rfl, second⟩ := forall₂_singleton_left.mp names
    have first : "arm" = arm.name := Option.some.inj first
    have second : "head" = head.name := Option.some.inj second
    obtain ⟨c, colliders, collider⟩ := forall₂_singleton_left.mp on.colliders
    obtain ⟨d, drawables, drawable⟩ := forall₂_singleton_left.mp on.drawables
    refine ⟨robot, rfl, count, rooted, ⟨base, inside, ?_, ?_⟩, palm, present, ?_, on.pose.unique, ?_, ?_⟩
    · exact (Option.some.inj is.name).symm
    · rw [children, List.map_cons, List.map_singleton, ← first, ← second]
    · exact (Option.some.inj on.name).symm
    · rw [colliders, List.map_singleton, collider.name, collider.shape.unique]
      decide +kernel
    · rw [drawables, List.map_singleton, drawable.name, drawable.shape.unique]
      decide +kernel

end Articulation.Rlsim
