import Articulation.Proofs.Traversal
import Articulation.Rlsim.Build
/-! What the parts of an rlsim document become, each by itself: indices become positions, shapes and
colliders do not depend on what was compiled before, and bodies and connections are functions of the
joints with their positions. -/
namespace Articulation

/-- The shape that `ofParameters` gives, whatever it reports. -/
def Geometry.solid (keyword : String) (p : Vec3) : Shape :=
  match keyword with
  | "capsule" => .ofSize .capsule ⟨0.5 * p.x, p.z, 0⟩
  | "cylinder" => .ofSize .cylinder ⟨0.5 * p.x, p.z, 0⟩
  | "sphere" => .ofSize .sphere ⟨0.5 * p.x, 0.5 * p.y, 0.5 * p.z⟩
  | _ => .ofSize .box p

theorem Geometry.ofParameters_fst (keyword : String) (p : Vec3) (label : String) (s : Session) :
    ((ofParameters keyword p label).run s).1 = solid keyword p := by
  unfold ofParameters
  split
  · rfl
  · rfl
  · rfl
  · rfl
  · rename_i box capsule cylinder sphere
    unfold solid
    split
    · exact absurd rfl capsule
    · exact absurd rfl cylinder
    · exact absurd rfl sphere
    · rfl

namespace Rlsim

/-! ### Indices -/

/-- An index that a joint of the document may hold: none, or that of a joint. -/
def InRange (raw : Int) (count : Nat) : Prop := raw = noIndex ∨ 0 ≤ raw ∧ raw < count

/-- The position that an index refers to. -/
def position? (raw : Int) : Option Nat := if raw = noIndex then none else some raw.toNat

theorem position?_eq_none {raw : Int} : position? raw = none ↔ raw = noIndex := by
  unfold position?
  split <;> simp_all

theorem position?_eq_some {raw : Int} {i count : Nat} (sound : InRange raw count) :
    position? raw = some i ↔ raw = i := by
  unfold position?
  rcases sound with absent | ⟨positive, _⟩
  · rw [if_pos absent, absent]
    simp [noIndex]
  · rw [if_neg (by unfold noIndex; omega), Option.some.injEq]
    omega

variable {raw : Int} {count : Nat} {holder : IndexHolder}

theorem index?_eq_ok {i : Option (Fin count)} :
    index? raw count holder = .ok i ↔ InRange raw count ∧ i.map Fin.val = position? raw := by
  unfold index? position? InRange
  split
  · rename_i absent
    cases i <;> simp [absent]
  · rename_i present
    split
    · rename_i inside
      cases i with
      | none => simp [present]
      | some i => simp [present, inside, Fin.ext_iff, eq_comm]
    · rename_i outside
      simp [present, outside]

theorem index?_isOk : (∃ i, index? raw count holder = .ok i) ↔ InRange raw count := by
  constructor
  · rintro ⟨_, found⟩
    exact (index?_eq_ok.mp found).1
  · rintro (absent | inside)
    · exact ⟨none, by rw [index?, if_pos absent]⟩
    · refine ⟨some ⟨raw.toNat, by omega⟩, ?_⟩
      rw [index?, if_neg (by unfold noIndex; omega), dif_pos inside]

/-- The indices of a document are those of its joints: there is no body without a joint, every parent is
one of the joints or none, and every drawable stands on one. -/
structure Document.InBounds (document : Document) : Prop where
  bodies : document.bodies.length ≤ document.joints.length
  parents : ∀ d ∈ document.joints, InRange d.parent document.joints.length
  drawables : ∀ d ∈ document.drawables, 0 ≤ d.joint ∧ d.joint < document.joints.length

variable {document : Document}

theorem parents_isOk : (∃ ps, parents document = .ok ps) ↔
    ∀ d ∈ document.joints, InRange d.parent document.joints.length := by
  rw [parents, mapM_isOk]
  simp only [index?_isOk]

theorem parents_eq_ok {ps : List (Option (Fin document.joints.length))}
    (found : parents document = .ok ps) :
    List.Forall₂ (fun d p => p.map Fin.val = position? d.parent) document.joints ps :=
  (mapM_eq_ok.mp found).imp fun _ _ found => (index?_eq_ok.mp found).2

theorem drawableJoint_eq_ok {d : DrawableDefinition} {i : Fin count} :
    drawableJoint d count = .ok i ↔ d.joint = i.val := by
  unfold drawableJoint
  cases found : index? d.joint count (.shape d.name) with
  | error e =>
    have outside : ¬ InRange d.joint count := by
      intro sound
      obtain ⟨_, same⟩ := index?_isOk.mpr sound
      cases found.symm.trans same
    simp only [bind, Except.bind, reduceCtorEq, false_iff]
    intro same
    exact outside (.inr (by omega))
  | ok p =>
    obtain ⟨sound, same⟩ := index?_eq_ok.mp found
    cases p with
    | none =>
      have absent := position?_eq_none.mp same.symm
      simp only [bind, Except.bind, throw, throwThe, MonadExceptOf.throw, reduceCtorEq, absent, noIndex]
    | some j =>
      have place : d.joint = j.val := (position?_eq_some sound).mp same.symm
      simp only [bind, Except.bind, pure, Except.pure, Except.ok.injEq, place, Fin.ext_iff,
        Int.natCast_inj]

theorem drawableJoints_isOk : (∃ js, drawableJoints document = .ok js) ↔
    ∀ d ∈ document.drawables, 0 ≤ d.joint ∧ d.joint < document.joints.length := by
  rw [drawableJoints, mapM_isOk]
  simp only [drawableJoint_eq_ok]
  refine forall₂_congr fun d _ => ⟨?_, fun inside => ⟨⟨d.joint.toNat, by omega⟩, by simp; omega⟩⟩
  rintro ⟨i, same⟩
  omega

theorem drawableJoints_eq_ok {js : List (Fin document.joints.length)}
    (found : drawableJoints document = .ok js) :
    List.Forall₂ (fun d j => d.joint = j.val) document.drawables js :=
  (mapM_eq_ok.mp found).imp fun _ _ found => drawableJoint_eq_ok.mp found

/-! ### Bodies and connections -/

/-- The collider that a body definition puts on the body of its joint. -/
def definedCollider (up : UpAxis) (d : BodyDefinition) : Collider :=
  collider d.mass d.name ((Geometry.solid d.shape (up.toZUp d.parameters)).placed (d.frame.pose up))

/-- The drawable of a shape to draw. -/
def drawn (up : UpAxis) (d : DrawableDefinition) : Drawable :=
  { Drawable.ofShape d.name ((Geometry.solid d.shape (up.toZUp d.parameters)).placed (d.frame.pose up)) with
    rgba := d.color
    specular := ⟨d.color.r, d.color.g, d.color.b⟩ }

/-- The link of a joint with its position, before any joint or drawable is on it. -/
def linkAt (document : Document) (up : UpAxis) (d : JointDefinition × Nat) : Link :=
  { Link.ofName (bodyName document d.2) with
    pose := d.1.frame.pose up
    colliders := document.bodies[d.2]?.toList.map (definedCollider up) }

/-- The body of a joint before it is assembled: only a joint without a parent is on it yet. -/
def bodyAt (document : Document) (up : UpAxis) (d : JointDefinition × Nat) : Body :=
  .node { linkAt document up d with
    joints := if (position? d.1.parent).isNone then [joint d.1] else []
    drawables := (document.drawables.filter fun shape => shape.joint == (d.2 : Int)).map (drawn up) } []

/-- The connection of a joint that has a parent. -/
def connectionAt? (document : Document) (up : UpAxis) (d : JointDefinition × Nat) : Option Connection :=
  (position? d.1.parent).map fun parent =>
    ⟨joint d.1, bodyName document parent, bodyName document d.2, d.1.frame.pose up⟩

def bodiesAt (document : Document) (up : UpAxis) : List Body :=
  document.joints.zipIdx.map (bodyAt document up)

def connectionsAt (document : Document) (up : UpAxis) : List Connection :=
  document.joints.zipIdx.filterMap (connectionAt? document up)

variable {up : UpAxis}

theorem colliders_fst (d : Option BodyDefinition) (s : Session) :
    ((colliders up d).run s).1 = d.toList.map (definedCollider up) := by
  cases d with
  | none => rfl
  | some d =>
    have shape := Geometry.ofParameters_fst d.shape (up.toZUp d.parameters) d.name s
    rw [Option.toList_some, List.map_singleton, definedCollider, ← shape]
    rfl

theorem drawable_fst (d : DrawableDefinition) (s : Session) : ((drawable up d).run s).1 = drawn up d := by
  rw [drawn, ← Geometry.ofParameters_fst d.shape (up.toZUp d.parameters) d.name s]
  rfl

theorem links_fst (document : Document) (s : Session) :
    ((links document up).run s).1 = document.joints.zipIdx.map (linkAt document up) := by
  refine mapM_run_fst (fun d s => ?_) _ s
  rw [linkAt, ← colliders_fst document.bodies[d.2]? s]
  rfl

theorem parts_fst (document : Document) (s : Session) :
    ((parts document up).run s).1 =
      (document.joints.zipIdx.map (linkAt document up), document.drawables.map (drawn up)) := by
  rw [← links_fst document s, ← mapM_run_fst drawable_fst document.drawables ((links document up).run s).2]
  rfl

theorem connections_eq {ps : List (Option (Fin document.joints.length))}
    (linked : List.Forall₂ (fun d p => p.map Fin.val = position? d.parent) document.joints ps) :
    connections document up ps = connectionsAt document up := by
  refine filterMap_zip (forall₂_zipIdx linked) fun d p same => ?_
  rw [connectionAt?, ← same]
  cases p with
  | none => rfl
  | some p => rfl

theorem drawables_eq {js : List (Fin document.joints.length)}
    (linked : List.Forall₂ (fun d j => d.joint = j.val) document.drawables js) (i : Nat) :
    (((document.drawables.map (drawn up)).zip js).filter fun shape => shape.2.val == i).map (·.1) =
      (document.drawables.filter fun shape => shape.joint == (i : Int)).map (drawn up) := by
  generalize document.drawables = shapes at linked
  induction linked with
  | nil => rfl
  | @cons d j shapes js place _ ih =>
    have same : (d.joint == (i : Int)) = (j.val == i) := by
      rw [Bool.eq_iff_iff, beq_iff_eq, beq_iff_eq, place, Int.natCast_inj]
    rw [List.map_cons, List.zip_cons_cons, List.filter_cons, List.filter_cons, same]
    split
    · rw [List.map_cons, List.map_cons, ih]
    · exact ih

theorem bodies_eq {ps : List (Option (Fin document.joints.length))}
    (linked : List.Forall₂ (fun d p => p.map Fin.val = position? d.parent) document.joints ps)
    {js : List (Fin document.joints.length)}
    (drawnOn : List.Forall₂ (fun d j => d.joint = j.val) document.drawables js) :
    bodies document (document.joints.zipIdx.map (linkAt document up)) ps
      ((document.drawables.map (drawn up)).zip js) = bodiesAt document up := by
  have length := linked.length_eq
  refine List.ext_getElem (by simp [bodies, bodiesAt, ← length]) fun i first second => ?_
  have inside : i < document.joints.length := by simpa [bodiesAt] using second
  have bound : i < ps.length := length ▸ inside
  have parent : ps[i].isNone = (position? document.joints[i].parent).isNone := by
    have same := linked.get inside bound
    rw [List.get_eq_getElem, List.get_eq_getElem] at same
    rw [← same, Option.isNone_map]
  simp only [bodies, bodiesAt, List.getElem_map, List.getElem_zipIdx, List.getElem_zip,
    drawables_eq drawnOn, bodyAt]
  simp [parent]

end Rlsim

end Articulation
