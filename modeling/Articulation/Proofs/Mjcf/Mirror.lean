import Articulation.Proofs.Body.Reframing
import Articulation.Proofs.Mjcf.ChildClass
import Articulation.Proofs.Mjcf.Parts
/-! The tree of bodies that a document compiles to mirrors its body elements: they stand in the same tree,
and on every body stand, in the order of the elements below it, the joints and the two sides of the
geoms. -/
namespace Articulation

/-- The collider without the frame of its shape. -/
def Collider.unplaced (c : Collider) : Collider := c.reframed fun _ => .identity

def Drawable.unplaced (d : Drawable) : Drawable := d.reframed fun _ => .identity

/-- The name is the one that the element declares, if it declares one. -/
def Element.Names (e : Element) (name : String) : Prop :=
  ∀ declared, e.name? = some declared → name = declared

namespace Mjcf

open Session (Grows Quiet)

/-! ### Elements and what they become -/

def isBody (e : Element) : Bool := e.kind == "body"

def isGeom (e : Element) : Bool := e.kind == "geom"

def isJoint (e : Element) : Bool := e.kind == "joint" || e.kind == "freejoint"

mutual
/-- The body elements in a body element, each with the class that it hands down to its children. -/
def bodyTree (inherited : Option String) : Element → Rose (Option String × Element)
  | .node tag children =>
    .node (handedDown inherited tag, .node tag children)
      (bodyTrees (handedDown inherited tag) children)

def bodyTrees (inherited : Option String) : List Element → List (Rose (Option String × Element))
  | [] => []
  | e :: rest =>
    if isBody e then bodyTree inherited e :: bodyTrees inherited rest else bodyTrees inherited rest
end

variable (r : Rules) (surroundings : Surroundings) (inherited : Option String) (e : Element)

def jointOf : StateM Session Joint := if e.kind = "joint" then joint r inherited e else freeJoint e

/-- The joint is, but for its frame, what the element compiles to in some session. -/
structure IsJointOf (j : Joint) : Prop where
  named : e.Names j.name
  made : ∃ s, ((jointOf r inherited e).run s).1.unplaced = j.unplaced

structure IsColliderOf (c : Collider) : Prop where
  named : e.Names c.name
  made : ∃ s, ((geom r surroundings inherited e).run s).1.1.unplaced = c.unplaced

structure IsDrawableOf (d : Drawable) : Prop where
  named : e.Names d.name
  made : ∃ s, ((geom r surroundings inherited e).run s).1.2.unplaced = d.unplaced

/-- Collider and drawable of one geom. -/
structure SameSides (c : Collider) (d : Drawable) : Prop where
  name : c.name = d.name
  shape : c.shape = d.shape

/-- What is on the link stems from some elements, which stand in a body element in this order. -/
structure Holds (elements : List Element) (link : Link) : Prop where
  joints : List.Forall₂ (IsJointOf r inherited) (elements.filter isJoint) link.joints
  colliders : List.Forall₂ (IsColliderOf r surroundings inherited)
    (elements.filter isGeom) link.colliders
  drawables : List.Forall₂ (IsDrawableOf r surroundings inherited)
    (elements.filter isGeom) link.drawables
  sides : List.Forall₂ SameSides link.colliders link.drawables

/-- The link is that of the body element, which hands down the class beside it. -/
structure IsLinkOf (origin : Option String × Element) (link : Link) : Prop where
  named : origin.2.Names link.name
  holds : Holds r surroundings origin.1 origin.2.children link

variable {r surroundings inherited e}

theorem bodyTrees_eq (inherited : Option String) (elements : List Element) :
    bodyTrees inherited elements = (elements.filter isBody).map (bodyTree inherited) := by
  induction elements with
  | nil => rfl
  | cons e rest ih =>
    rw [bodyTrees, ih, List.filter_cons]
    split <;> rfl

/-! ### Element by element -/

section

variable {elements : List Element} {link : Link} (holds : Holds r surroundings inherited elements link)

include holds

theorem Holds.geom (kind : e.kind = "geom") {sides : Collider × Drawable}
    (c : IsColliderOf r surroundings inherited e sides.1)
    (d : IsDrawableOf r surroundings inherited e sides.2) (same : SameSides sides.1 sides.2) :
    Holds r surroundings inherited (elements ++ [e]) { link with
      colliders := link.colliders ++ [sides.1]
      drawables := link.drawables ++ [sides.2] } := by
  have taken : isGeom e = true := beq_iff_eq.mpr kind
  have left : isJoint e = false := by simp [isJoint, kind]
  exact ⟨forall₂_filter_skip holds.joints left, forall₂_filter_snoc holds.colliders taken c,
    forall₂_filter_snoc holds.drawables taken d, List.rel_append holds.sides (.cons same .nil)⟩

theorem Holds.joint (kind : isJoint e = true) {j : Joint} (made : IsJointOf r inherited e j) :
    Holds r surroundings inherited (elements ++ [e]) { link with joints := link.joints ++ [j] } := by
  have left : isGeom e = false := by
    rcases Bool.or_eq_true_iff.mp kind with joint | free
    · simp [isGeom, beq_iff_eq.mp joint]
    · simp [isGeom, beq_iff_eq.mp free]
  exact ⟨forall₂_filter_snoc holds.joints kind made, forall₂_filter_skip holds.colliders left,
    forall₂_filter_skip holds.drawables left, holds.sides⟩

theorem Holds.other (joint : isJoint e = false) (geom : isGeom e = false) (inertial : Option Inertial) :
    Holds r surroundings inherited (elements ++ [e]) { link with inertial } :=
  ⟨forall₂_filter_skip holds.joints joint, forall₂_filter_skip holds.colliders geom,
    forall₂_filter_skip holds.drawables geom, holds.sides⟩

end

/-! ### Bodies -/

/-- What a run over some children of a body element has built: the session has grown by the edges, and
all that is there refers to registered assets. -/
structure Built (r : Rules) (surroundings : Surroundings) (inherited : Option String) (name : String)
    (start : Session) (elements : List Element) (b : Body) (s : Session) : Prop where
  name : b.name = name
  grows : Grows start s b.branches
  holds : Holds r surroundings inherited elements b.link
  below : List.Forall₂ (fun x => Rose.Matches (IsLinkOf r surroundings) (bodyTree inherited x))
    (elements.filter isBody) b.children
  resolved : b.Resolved s.assets

/-- What compiling a body element gives: the session has grown by the edge to it and those below it, and
the body mirrors the element. -/
structure Compiled (r : Rules) (surroundings : Surroundings) (parent inherited : Option String)
    (e : Element) (start : Session) (b : Body) (s : Session) : Prop where
  grows : Grows start s ((parent.map fun parent => (parent, b.name)).toList ++ b.branches)
  resolved : b.Resolved s.assets
  same : Rose.Matches (IsLinkOf r surroundings) (bodyTree inherited e) b

section

variable {name : String} {start s t : Session} {elements : List Element} {b : Body}
  (before : Built r surroundings inherited name start elements b s)

include before

/-- An element that is no body leaves the bodies below as they are. -/
theorem Built.changed {link : Link} (grows : Grows s t []) (other : isBody e = false)
    (named : link.name = b.link.name)
    (holds : Holds r surroundings inherited (elements ++ [e]) link) (resolved : link.Resolved t.assets) :
    Built r surroundings inherited name start (elements ++ [e]) (.node link b.children) t := by
  have branches : Body.branches (.node link b.children) = b.branches := by
    rw [Body.branches_eq, Body.branches_eq b]
    exact congrArg (fun parent => b.children.flatMap fun child : Body =>
      (parent, child.name) :: child.branches) named
  refine ⟨named.trans before.name, ?_, holds, forall₂_filter_skip before.below other, ?_⟩
  · rw [branches, ← List.append_nil b.branches]
    exact before.grows.trans grows
  · have earlier := (Body.resolved_iff.mp (before.resolved.mono grows.assets)).2
    exact Body.resolved_iff.mpr ⟨resolved, earlier⟩

theorem Built.body {child : Body} (kind : e.kind = "body")
    (compiled : Compiled r surroundings (some name) inherited e s child t) :
    Built r surroundings inherited name start (elements ++ [e])
      (.node b.link (b.children ++ [child])) t := by
  have branches : Body.branches (.node b.link (b.children ++ [child])) =
      b.branches ++ (name, child.name) :: child.branches := by
    rw [Body.branches_eq, Body.branches_eq b, Rose.children_node, List.flatMap_append,
      List.flatMap_singleton, ← before.name]
    rfl
  obtain ⟨here, below⟩ := Body.resolved_iff.mp (before.resolved.mono compiled.grows.assets)
  refine ⟨before.name, branches ▸ before.grows.trans compiled.grows, ?_, ?_, ?_⟩
  · exact before.holds.other (by simp [isJoint, kind]) (by simp [isGeom, kind]) b.link.inertial
  · exact forall₂_filter_snoc before.below (beq_iff_eq.mpr kind) compiled.same
  · refine Body.resolved_iff.mpr ⟨here, fun other member => ?_⟩
    rcases List.mem_append.mp member with old | new
    · exact below other old
    · exact List.mem_singleton.mp new ▸ compiled.resolved

theorem Built.geom (kind : e.kind = "geom") {sides : Collider × Drawable}
    (compiled : (Mjcf.geom r surroundings inherited e).run s = (sides, t)) :
    Built r surroundings inherited name start (elements ++ [e]) (.node { b.link with
      colliders := b.link.colliders ++ [sides.1]
      drawables := b.link.drawables ++ [sides.2] } b.children) t := by
  obtain ⟨grows, both⟩ := run_geom compiled
  have made : ((Mjcf.geom r surroundings inherited e).run s).1 = sides := by rw [compiled]
  have link := (Body.resolved_iff.mp before.resolved).1.mono grows.assets
  refine before.changed grows (by simp [isBody, kind]) rfl (before.holds.geom kind ?_ ?_ ?_) ?_
  · exact ⟨both.named, s, by rw [made]⟩
  · exact ⟨fun given declared => both.name ▸ both.named given declared, s, by rw [made]⟩
  · exact ⟨both.name, both.shape⟩
  · exact ⟨List.forall_mem_append.mpr ⟨link.colliders, List.forall_mem_singleton.mpr both.collider⟩,
      List.forall_mem_append.mpr ⟨link.drawables, List.forall_mem_singleton.mpr both.drawable⟩⟩

theorem Built.jointed (kind : isJoint e = true) {j : Joint} (grows : Grows s t [])
    (made : IsJointOf r inherited e j) : Built r surroundings inherited name start (elements ++ [e])
      (.node { b.link with joints := b.link.joints ++ [j] } b.children) t := by
  have link := (Body.resolved_iff.mp before.resolved).1.mono grows.assets
  have other : isBody e = false := by
    rcases Bool.or_eq_true_iff.mp kind with joint | free
    · simp [isBody, beq_iff_eq.mp joint]
    · simp [isBody, beq_iff_eq.mp free]
  exact before.changed grows other rfl (before.holds.joint kind made) ⟨link.colliders, link.drawables⟩

/-- One child element more, whatever its type. -/
theorem Built.member {built : Body}
    (nested : e.kind = "body" → ∀ {s t : Session} {child : Body},
      (Mjcf.body r surroundings (some name) inherited e).run s = (child, t) →
      Compiled r surroundings (some name) inherited e s child t)
    (run : (member r surroundings inherited b e).run s = (built, t)) :
    Built r surroundings inherited name start (elements ++ [e]) built t := by
  cases run_member run with
  | geom kind compiled => exact before.geom kind compiled
  | joint kind compiled =>
    refine before.jointed (by simp [isJoint, kind]) ((quiet_joint _ _ _).run compiled) ⟨?_, s, ?_⟩
    · exact fun given declared => run_joint compiled declared
    · rw [jointOf, if_pos kind, compiled]
  | freeJoint kind compiled =>
    refine before.jointed (by simp [isJoint, kind]) ((quiet_freeJoint _).run compiled) ⟨?_, s, ?_⟩
    · exact fun given declared => run_freeJoint compiled declared
    · rw [jointOf, if_neg (by simp [kind]), compiled]
  | inertial kind compiled =>
    have grows := (Quiet.of_onlyReports (onlyReports_inertial _ _ _)).run compiled
    have link := (Body.resolved_iff.mp before.resolved).1.mono grows.assets
    exact before.changed grows (by simp [isBody, kind]) rfl
      (before.holds.other (by simp [isJoint, kind]) (by simp [isGeom, kind]) _)
      ⟨link.colliders, link.drawables⟩
  | body kind compiled =>
    rw [show b.value.name = name from before.name] at compiled
    exact before.body kind (nested kind compiled)
  | other geom joint free _ body =>
    have noBody : isBody e = false := by simp [isBody, body]
    have noJoint : isJoint e = false := by simp [isJoint, joint, free]
    have noGeom : isGeom e = false := by simp [isGeom, geom]
    have kept := before.changed (.refl _) noBody rfl (before.holds.other noJoint noGeom b.link.inertial)
      (Body.resolved_iff.mp before.resolved).1
    cases b
    exact kept

end

theorem members_built {children elements : List Element} {name : String} {start s t : Session}
    {b built : Body}
    (each : ∀ e : Element, e ∈ children → e.kind = "body" → ∀ {s t : Session} {child : Body},
      (body r surroundings (some name) inherited e).run s = (child, t) →
      Compiled r surroundings (some name) inherited e s child t)
    (before : Built r surroundings inherited name start elements b s)
    (run : (children.foldlM (member r surroundings inherited) b).run s = (built, t)) :
    Built r surroundings inherited name start (elements ++ children) built t := by
  -- on the children still to come; those behind are the elements that the body is built of so far
  induction children generalizing elements b s with
  | nil =>
    obtain ⟨rfl, rfl⟩ := run_pure.mp run
    rwa [List.append_nil]
  | cons e rest ih =>
    rw [List.foldlM_cons] at run
    obtain ⟨next, u, first, run⟩ := run_bind.mp run
    obtain ⟨here, later⟩ := List.forall_mem_cons.mp each
    rw [List.append_cons]
    exact ih later (before.member here first) run

/-- A body that is only named and joined to its parent is built of no elements. -/
theorem built_nil {name : String} {pose : Pose} (s : Session) :
    Built r surroundings inherited name s [] (.node { Link.ofName name with pose } []) s := by
  refine ⟨rfl, .refl s, ⟨.nil, .nil, .nil, .nil⟩, .nil, ?_⟩
  exact Body.resolved_iff.mpr ⟨⟨fun _ member => (nomatch member), fun _ member => (nomatch member)⟩,
    fun _ member => (nomatch member)⟩

theorem compiled_of_built {parent : Option String} {name : String} {start s t : Session} {b : Body}
    (kind : e.kind = "body") (named : e.Names name)
    (joined : Grows start s (parent.map fun parent => (parent, name)).toList)
    (built : Built r surroundings (handedDown inherited e.value) name s e.children b t) :
    Compiled r surroundings parent inherited e start b t := by
  refine ⟨built.name ▸ joined.trans built.grows, built.resolved, ?_⟩
  cases e with
  | node tag children =>
    have link : IsLinkOf r surroundings (handedDown inherited tag, .node tag children) b.link :=
      ⟨show Element.Names _ b.name from built.name ▸ named, built.holds⟩
    refine .of_parts link ?_
    rw [bodyTree, Rose.children_node, bodyTrees_eq]
    exact List.forall₂_map_left_iff.mpr built.below

theorem run_body {parent : Option String} {s t : Session} {b : Body} (kind : e.kind = "body")
    (run : (body r surroundings parent inherited e).run s = (b, t)) :
    Compiled r surroundings parent inherited e s b t := by
  induction e using Rose.induction generalizing parent inherited s t b with
  | step tag children ih =>
    have handed : handedDown inherited tag = _ := if_pos kind
    rw [body_eq, Element.own, Element.attributes, Rose.value_node, ← handed] at run
    obtain ⟨name, u, named, run⟩ := run_bind.mp run
    have first := (Quiet.nameOr _ _).run named
    -- only with a parent is there a contact to exclude before the children
    cases parent with
    | none =>
      have built := members_built (fun e member kind => ih e member kind) (built_nil u) run
      exact compiled_of_built kind (fun _ declared => Session.nameOr_declared named declared) first built
    | some parent =>
      obtain ⟨_, v, excluded, run⟩ := run_bind.mp run
      have joined := first.trans (Session.run_exclude excluded)
      have built := members_built (fun e member kind => ih e member kind) (built_nil v) run
      exact compiled_of_built kind (fun _ declared => Session.nameOr_declared named declared) joined built

/-! ### Frames -/

/-- Other frames leave a link that of its element. -/
theorem IsLinkOf.reframed {origin : Option String × Element} {before after : Link}
    (same : IsLinkOf r surroundings origin before) (reframed : before.Reframed after) :
    IsLinkOf r surroundings origin after := by
  obtain ⟨f, colliders, drawables⟩ := reframed.shapes
  have joints : List.Forall₂ (IsJointOf r origin.1) (origin.2.children.filter isJoint)
      (before.joints.map Joint.unplaced) :=
    List.forall₂_map_right_iff.mpr (same.holds.joints.imp fun _ _ same => ⟨same.named, same.made⟩)
  rw [← reframed.joints] at joints
  refine ⟨reframed.name ▸ same.named, ?_, ?_, ?_, ?_⟩
  · exact (List.forall₂_map_right_iff.mp joints).imp fun _ _ same => ⟨same.named, same.made⟩
  · rw [colliders]
    exact List.forall₂_map_right_iff.mpr
      (same.holds.colliders.imp fun _ _ same => ⟨same.named, same.made⟩)
  · rw [drawables]
    exact List.forall₂_map_right_iff.mpr
      (same.holds.drawables.imp fun _ _ same => ⟨same.named, same.made⟩)
  · rw [colliders, drawables]
    refine List.forall₂_map_left_iff.mpr (List.forall₂_map_right_iff.mpr (same.holds.sides.imp ?_))
    intro c d same
    refine ⟨same.name, ?_⟩
    rw [Collider.reframed, Drawable.reframed, same.shape]

theorem reframed_toRelative (parentWorld : Pose) (link : Link) :
    link.Reframed (toRelative parentWorld link) := by
  refine ⟨rfl, ?_, link.pose.relative, rfl, rfl⟩
  rw [toRelative, List.map_map]
  rfl

theorem localizeAll_eq (parentWorld : Pose) (bodies : List Body) :
    localizeAll parentWorld bodies = bodies.map (localize parentWorld) := by
  induction bodies with
  | nil => rfl
  | cons b rest ih => rw [localizeAll, ih, List.map_cons]

theorem reframed_localize (parentWorld : Pose) (b : Body) : b.Reframed (localize parentWorld b) := by
  induction b using Rose.induction generalizing parentWorld with
  | step link children ih =>
    rw [localize, localizeAll_eq]
    refine .node (reframed_toRelative parentWorld link) ?_
    exact List.forall₂_map_right_iff.mpr (List.forall₂_same.mpr fun child member => ih child member _)

theorem reframed_resolved (mode : CoordinateMode) (b : Body) : b.Reframed (resolved mode b) := by
  cases mode with
  | relative => exact .refl Link.Reframed.refl b
  | world => exact reframed_localize .identity b

end Mjcf

end Articulation
