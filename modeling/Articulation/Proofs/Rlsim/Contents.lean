import Articulation.Proofs.Rlsim.Parts
/-! What the definitions of a document ask for, in terms of their members alone: which axis points up, what
bodies are called, where things stand and what they are. Each part that is compiled is what its definition
asks for. -/
namespace Articulation

/-! ### Turns -/

def halfSin (angle : Float32) : Float32 := (angle * 0.5).sin

def halfCos (angle : Float32) : Float32 := (angle * 0.5).cos

/-- The turn rolls about x, then pitches about y, then yaws about z, by the three angles. -/
structure Rotation.TurnsBy (angles : Vec3) (q : Rotation) : Prop where
  w : q.w = halfCos angles.x * halfCos angles.y * halfCos angles.z +
    halfSin angles.x * halfSin angles.y * halfSin angles.z
  x : q.x = halfSin angles.x * halfCos angles.y * halfCos angles.z -
    halfCos angles.x * halfSin angles.y * halfSin angles.z
  y : q.y = halfCos angles.x * halfSin angles.y * halfCos angles.z +
    halfSin angles.x * halfCos angles.y * halfSin angles.z
  z : q.z = halfCos angles.x * halfCos angles.y * halfSin angles.z -
    halfSin angles.x * halfSin angles.y * halfCos angles.z

theorem Rotation.turnsBy_iff {angles : Vec3} {q : Rotation} : TurnsBy angles q ↔ q = .ofEuler angles := by
  constructor
  · rintro ⟨w, x, y, z⟩
    cases q
    simp only at w x y z
    rw [w, x, y, z]
    rfl
  · rintro rfl
    exact ⟨rfl, rfl, rfl, rfl⟩

/-! ### The axis that points up -/

theorem UpAxis.ofKeyword?_eq_some {keyword : String} {axis : UpAxis} :
    ofKeyword? keyword = some axis ↔ (keyword, axis) ∈ [("x", UpAxis.x), ("y", .y), ("z", .z)] := by
  constructor
  · intro found
    unfold ofKeyword? at found
    split at found <;> cases found <;> decide
  · intro listed
    simp only [List.mem_cons, Prod.mk.injEq, List.not_mem_nil, or_false] at listed
    rcases listed with ⟨rfl, rfl⟩ | ⟨rfl, rfl⟩ | ⟨rfl, rfl⟩ <;> rfl

theorem UpAxis.ofKeyword?_eq_none {keyword : String} :
    ofKeyword? keyword = none ↔ keyword ∉ ["x", "y", "z"] := by
  constructor
  · intro unknown listed
    simp only [List.mem_cons, List.not_mem_nil, or_false] at listed
    rcases listed with rfl | rfl | rfl <;> contradiction
  · intro foreign
    cases known : ofKeyword? keyword with
    | none => rfl
    | some axis =>
      have listed := List.mem_map_of_mem (f := Prod.fst) (ofKeyword?_eq_some.mp known)
      exact absurd listed foreign

namespace Rlsim

/-- The axis points up: the settings say so; or they leave it to the document, which names the axis, or says
nothing and means y, or names what is no axis and means z. -/
inductive PointsUp (settings : RlsimSettings) (document : Document) : UpAxis → Prop
  | set {axis} : settings.worldUp = some axis → PointsUp settings document axis
  | named {keyword axis} : settings.worldUp = none → document.worldUp = some keyword →
      (keyword, axis) ∈ [("x", UpAxis.x), ("y", .y), ("z", .z)] → PointsUp settings document axis
  | unsaid : settings.worldUp = none → document.worldUp = none → PointsUp settings document .y
  | unknown {keyword} : settings.worldUp = none → document.worldUp = some keyword →
      keyword ∉ ["x", "y", "z"] → PointsUp settings document .z

theorem pointsUp_upAxis (settings : RlsimSettings) (document : Document) :
    PointsUp settings document (upAxis settings document) := by
  unfold upAxis
  cases chosen : settings.worldUp with
  | some axis => exact .set chosen
  | none =>
    cases own : document.worldUp with
    | none => exact .unsaid chosen own
    | some keyword =>
      dsimp only [Option.getD_none]
      cases known : UpAxis.ofKeyword? keyword with
      | some axis => exact .named chosen own (UpAxis.ofKeyword?_eq_some.mp known)
      | none => exact .unknown chosen own (UpAxis.ofKeyword?_eq_none.mp known)

theorem PointsUp.unique {settings : RlsimSettings} {document : Document} {up : UpAxis}
    (points : PointsUp settings document up) : up = upAxis settings document := by
  unfold upAxis
  cases points with
  | set chosen => rw [chosen, Option.getD_some]
  | named chosen own listed =>
    simp only [chosen, own, Option.getD_none, UpAxis.ofKeyword?_eq_some.mpr listed, Option.getD_some]
  | unsaid chosen own => rw [chosen, own, Option.getD_none]
  | unknown chosen own foreign =>
    simp only [chosen, own, Option.getD_none, UpAxis.ofKeyword?_eq_none.mpr foreign]

/-! ### Frames -/

/-- The later vector is the earlier one where z takes the place of the axis that points up: the three
components go round. -/
inductive Righted : UpAxis → Vec3 → Vec3 → Prop
  | x {a b c} : Righted .x ⟨a, b, c⟩ ⟨b, c, a⟩
  | y {a b c} : Righted .y ⟨a, b, c⟩ ⟨c, a, b⟩
  | z {a b c} : Righted .z ⟨a, b, c⟩ ⟨a, b, c⟩

variable {up : UpAxis}

theorem righted_toZUp (up : UpAxis) (v : Vec3) : Righted up v (up.toZUp v) := by
  cases up with
  | x => exact .x
  | y => exact .y
  | z => exact .z

theorem Righted.unique {v w : Vec3} (righted : Righted up v w) : w = up.toZUp v := by
  cases righted <;> rfl

/-- The pose is where the attachment puts things, in a frame in which z points up. -/
structure IsFrameOf (up : UpAxis) (a : Attachment) (pose : Pose) : Prop where
  position : Righted up a.position pose.position
  rotation : ∃ angles, Righted up a.angles angles ∧ Rotation.TurnsBy angles pose.rotation

theorem isFrameOf_pose (up : UpAxis) (a : Attachment) : IsFrameOf up a (a.pose up) where
  position := righted_toZUp up a.position
  rotation := ⟨_, righted_toZUp up a.angles, Rotation.turnsBy_iff.mpr rfl⟩

theorem IsFrameOf.unique {a : Attachment} {pose : Pose} (is : IsFrameOf up a pose) : pose = a.pose up := by
  obtain ⟨angles, righted, turns⟩ := is.rotation
  cases pose
  rw [Attachment.pose, ← is.position.unique, ← righted.unique, ← Rotation.turnsBy_iff.mp turns]

/-! ### What is on bodies -/

/-- The joint that a definition makes: of its type, or fixed where that is unknown, about x, within its
limits where they differ, and without a frame of its own. -/
structure IsJointOf (d : JointDefinition) (j : Joint) : Prop where
  name : j.name = d.name
  type : JointType.ofKeyword? d.type = some j.type ∨ JointType.ofKeyword? d.type = none ∧ j.type = .fixed
  axis : j.axis = ⟨1, 0, 0⟩
  limited : epsilon < (d.upper - d.lower).abs → j.limits = ⟨d.lower, d.upper⟩
  unlimited : ¬ epsilon < (d.upper - d.lower).abs → j.limits = .unlimited
  pose : j.pose = .identity
  passive : j.stiffness = 0 ∧ j.damping = 0 ∧ j.armature = 0 ∧ j.reference = 0

theorem isJointOf_joint (d : JointDefinition) (owner : Option Nat) (world : Pose) :
    IsJointOf d { joint d with pose := .identity, owner, world } where
  name := rfl
  type := by
    show _ = some ((JointType.ofKeyword? d.type).getD .fixed) ∨
      _ ∧ (JointType.ofKeyword? d.type).getD .fixed = .fixed
    cases JointType.ofKeyword? d.type with
    | none => exact .inr ⟨rfl, rfl⟩
    | some type => exact .inl rfl
  axis := rfl
  limited := fun apart => if_pos apart
  unlimited := fun equal => if_neg equal
  pose := rfl
  passive := ⟨rfl, rfl, rfl, rfl⟩

/-- The shape of a keyword with parameters, attached to a body. -/
structure IsShapeOf (up : UpAxis) (keyword : String) (parameters : Vec3) (a : Attachment) (shape : Shape) :
    Prop where
  solid : ∃ p, Righted up parameters p ∧ shape = { Geometry.solid keyword p with pose := shape.pose }
  frame : IsFrameOf up a shape.pose

theorem isShapeOf_solid (up : UpAxis) (keyword : String) (parameters : Vec3) (a : Attachment) :
    IsShapeOf up keyword parameters a
      ((Geometry.solid keyword (up.toZUp parameters)).placed (a.pose up)) where
  solid := ⟨_, righted_toZUp up parameters, rfl⟩
  frame := isFrameOf_pose up a

theorem IsShapeOf.unique {keyword : String} {parameters : Vec3} {a : Attachment} {shape : Shape}
    (is : IsShapeOf up keyword parameters a shape) :
    shape = (Geometry.solid keyword (up.toZUp parameters)).placed (a.pose up) := by
  obtain ⟨p, righted, same⟩ := is.solid
  rw [← righted.unique, ← is.frame.unique]
  exact same

/-- The collider of a body definition. Its density gives the shape the mass, where both the mass and the
volume are above zero. -/
structure IsColliderOf (up : UpAxis) (d : BodyDefinition) (c : Collider) : Prop where
  name : c.name = d.name
  shape : IsShapeOf up d.shape d.parameters d.frame c.shape
  massive : ∀ volume, c.shape.volume? = some volume → 0 < volume → 0 < d.mass → c.density = d.mass / volume
  massless : (∀ volume, c.shape.volume? = some volume → ¬ (0 < volume ∧ 0 < d.mass)) →
    c.density = standardDensity
  contact : c.group = 1 ∧ c.mask = 1 ∧ c.friction = .standard

/-- The drawable of a shape to draw, which shines in its own color. -/
structure IsDrawableOf (up : UpAxis) (d : DrawableDefinition) (drawable : Drawable) : Prop where
  name : drawable.name = d.name
  shape : IsShapeOf up d.shape d.parameters d.frame drawable.shape
  rgba : drawable.rgba = d.color
  specular : drawable.specular = ⟨d.color.r, d.color.g, d.color.b⟩
  plain : drawable.shininess = standardShininess ∧ drawable.material = none

theorem isDrawableOf_drawn (up : UpAxis) (d : DrawableDefinition) : IsDrawableOf up d (drawn up d) where
  name := rfl
  shape := isShapeOf_solid up d.shape d.parameters d.frame
  rgba := rfl
  specular := rfl
  plain := ⟨rfl, rfl⟩

/-- A collider has its density for its mass, and all else as it has without one. -/
theorem collider_eq (mass : Float32) (name : String) (shape : Shape) :
    ∃ density, collider mass name shape = { Collider.ofShape name shape with density } ∧
      (∀ volume, shape.volume? = some volume → 0 < volume → 0 < mass → density = mass / volume) ∧
      ((∀ volume, shape.volume? = some volume → ¬ (0 < volume ∧ 0 < mass)) → density = standardDensity) := by
  unfold collider
  cases enclosed : shape.volume? with
  | none => exact ⟨standardDensity, rfl, fun _ found => (nomatch found), fun _ => rfl⟩
  | some volume =>
    dsimp only
    split
    · rename_i heavy
      rw [Bool.and_eq_true, decide_eq_true_eq, decide_eq_true_eq] at heavy
      refine ⟨mass / volume, rfl, fun other found _ _ => ?_, fun light => ?_⟩
      · rw [Option.some.inj found]
      · exact absurd heavy.symm (light volume rfl)
    · rename_i light
      rw [Bool.and_eq_true, decide_eq_true_eq, decide_eq_true_eq] at light
      refine ⟨standardDensity, rfl, fun other found large heavy => ?_, fun _ => rfl⟩
      cases found
      exact absurd ⟨heavy, large⟩ light

theorem isColliderOf_definedCollider (up : UpAxis) (d : BodyDefinition) :
    IsColliderOf up d (definedCollider up d) := by
  obtain ⟨density, same, massive, massless⟩ := collider_eq d.mass d.name
    ((Geometry.solid d.shape (up.toZUp d.parameters)).placed (d.frame.pose up))
  rw [definedCollider, same]
  exact ⟨rfl, isShapeOf_solid up d.shape d.parameters d.frame, massive, massless, rfl, rfl, rfl⟩

/-! ### Names -/

/-- The names of bodies: those of the body definitions, and of the joints beyond them. -/
def Document.names (document : Document) : List String :=
  document.bodies.map (·.name) ++ (document.joints.drop document.bodies.length).map (·.name)

variable {document : Document}

theorem getElem?_names {i : Nat} (present : i < document.joints.length) :
    document.names[i]? = some (bodyName document i) := by
  unfold Document.names bodyName
  by_cases defined : i < document.bodies.length
  · rw [List.getElem?_append_left (by simpa using defined), List.getElem?_map,
      List.getElem?_eq_getElem defined]
    rfl
  · rw [List.getElem?_append_right (by simpa using defined), List.getElem?_map, List.getElem?_drop,
      List.length_map, Nat.add_sub_cancel' (Nat.not_lt.mp defined), List.getElem?_eq_getElem present,
      List.getElem?_eq_none (Nat.not_lt.mp defined)]
    rfl

end Rlsim

end Articulation
