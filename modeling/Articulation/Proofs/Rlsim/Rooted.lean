import Articulation.Proofs.Assembly.Acceptance
import Articulation.Proofs.Rlsim.Parts
/-! Parent indices as a rooted tree. Where the bodies of the joints have distinct names, following the
indices of a document and following the connections of its bodies are the same, and the connections span
the bodies exactly if one joint alone has no parent and every joint leads to it. -/
namespace Articulation.Rlsim
open Assembly Relation

/-- The parent index of one joint is the other joint. -/
def Follows (document : Document) (i parent : Nat) : Prop :=
  ∃ d, document.joints[i]? = some d ∧ d.parent = parent

/-- One joint alone has no parent, and the parent indices lead to it from every joint. -/
structure Document.IsRooted (document : Document) (root : Nat) : Prop where
  present : root < document.joints.length
  alone : ∀ i d, document.joints[i]? = some d → (d.parent = -1 ↔ i = root)
  leads : ∀ i, i < document.joints.length → ReflTransGen (Follows document) i root

/-- The names of the bodies of all joints. -/
def bodyNames (document : Document) : List String :=
  (List.range document.joints.length).map (bodyName document)

variable {document : Document} {up : UpAxis}

theorem names_bodiesAt (document : Document) (up : UpAxis) :
    (bodiesAt document up).map Body.name = bodyNames document := by
  rw [bodiesAt, List.map_map, bodyNames, List.range_eq_range', ← List.zipIdx_map_snd 0 document.joints,
    List.map_map]
  rfl

theorem mem_bodyNames {name : String} :
    name ∈ bodyNames document ↔ ∃ i, i < document.joints.length ∧ bodyName document i = name := by
  simp [bodyNames]

theorem bodyName_inj (distinct : (bodyNames document).Nodup) {i j : Nat}
    (first : i < document.joints.length) (second : j < document.joints.length)
    (same : bodyName document i = bodyName document j) : i = j :=
  List.inj_on_of_nodup_map distinct (List.mem_range.mpr first) (List.mem_range.mpr second) same

theorem lt_of_joint {i : Nat} {d : JointDefinition} (found : document.joints[i]? = some d) :
    i < document.joints.length :=
  (List.getElem?_eq_some_iff.mp found).1

/-- The connections are those of the joints that have a parent. -/
theorem mem_connectionsAt {c : Connection} :
    c ∈ connectionsAt document up ↔ ∃ i d parent, document.joints[i]? = some d ∧
      position? d.parent = some parent ∧
      c = ⟨joint d, bodyName document parent, bodyName document i, d.frame.pose up⟩ := by
  simp only [connectionsAt, List.mem_filterMap, Prod.exists, List.mem_zipIdx_iff_getElem?, connectionAt?,
    Option.map_eq_some_iff]
  constructor
  · rintro ⟨d, i, found, parent, place, rfl⟩
    exact ⟨i, d, parent, found, place, rfl⟩
  · rintro ⟨i, d, parent, found, place, rfl⟩
    exact ⟨d, i, found, parent, place, rfl⟩

namespace Document.InBounds

theorem position_iff (sound : document.InBounds) {i parent : Nat} {d : JointDefinition}
    (found : document.joints[i]? = some d) :
    position? d.parent = some parent ↔ d.parent = parent :=
  position?_eq_some (sound.parents d (List.mem_of_getElem? found))

theorem parent_lt (sound : document.InBounds) {i parent : Nat} {d : JointDefinition}
    (found : document.joints[i]? = some d) (place : d.parent = parent) :
    parent < document.joints.length := by
  rcases sound.parents d (List.mem_of_getElem? found) with absent | inside
  · rw [place, noIndex] at absent
    omega
  · omega

/-- A joint with a parent index follows some joint. -/
theorem exists_parent (sound : document.InBounds) {i : Nat} {d : JointDefinition}
    (found : document.joints[i]? = some d) (present : d.parent ≠ noIndex) :
    ∃ parent, position? d.parent = some parent ∧ d.parent = (parent : Nat) := by
  have placed := mt position?_eq_none.mp present
  obtain ⟨parent, place⟩ := Option.ne_none_iff_exists'.mp placed
  exact ⟨parent, place, (sound.position_iff found).mp place⟩

theorem known (sound : document.InBounds) :
    ∀ c ∈ connectionsAt document up, IsKnown (bodyNames document) c := by
  intro c member
  obtain ⟨i, d, parent, found, place, rfl⟩ := mem_connectionsAt.mp member
  have inside := sound.parent_lt found ((sound.position_iff found).mp place)
  exact ⟨mem_bodyNames.mpr ⟨parent, inside, rfl⟩, mem_bodyNames.mpr ⟨i, lt_of_joint found, rfl⟩⟩

end Document.InBounds

theorem children_nodup (distinct : (bodyNames document).Nodup) :
    ((connectionsAt document up).map (·.child)).Nodup := by
  rw [← names_bodiesAt document up, bodiesAt, List.map_map] at distinct
  refine distinct.sublist (sublist_filterMap (fun d c found => ?_) _)
  obtain ⟨_, _, rfl⟩ := Option.map_eq_some_iff.mp found
  rfl

/-! ### Following indices and connections -/

theorem leads_of_follows (sound : document.InBounds) {i parent : Nat}
    (step : Follows document i parent) :
    Leads (connectionsAt document up) (bodyName document parent) (bodyName document i) := by
  obtain ⟨d, found, place⟩ := step
  have placed := (sound.position_iff found).mpr place
  exact ⟨_, mem_connectionsAt.mpr ⟨i, d, parent, found, placed, rfl⟩, rfl, rfl⟩

theorem reaches_of_follows (sound : document.InBounds) {i root : Nat}
    (path : ReflTransGen (Follows document) i root) :
    Reaches (connectionsAt document up) (bodyName document root) (bodyName document i) := by
  induction path using ReflTransGen.head_induction_on with
  | refl => exact .refl
  | head step _ ih => exact ih.tail (leads_of_follows sound step)

theorem follows_of_reaches (sound : document.InBounds) (distinct : (bodyNames document).Nodup)
    {root : Nat} (present : root < document.joints.length) {name : String}
    (path : Reaches (connectionsAt document up) (bodyName document root) name) :
    ∃ i, i < document.joints.length ∧ bodyName document i = name ∧
      ReflTransGen (Follows document) i root := by
  induction path with
  | refl => exact ⟨root, present, rfl, .refl⟩
  | tail _ step ih =>
    obtain ⟨c, member, rfl, rfl⟩ := step
    obtain ⟨i, d, parent, found, place, rfl⟩ := mem_connectionsAt.mp member
    obtain ⟨k, inside, same, path⟩ := ih
    have follows := (sound.position_iff found).mp place
    obtain rfl := bodyName_inj distinct inside (sound.parent_lt found follows) same
    exact ⟨i, lt_of_joint found, rfl, path.head ⟨d, found, follows⟩⟩

/-! ### Rooted documents -/

theorem Document.IsRooted.spans (sound : document.InBounds) (distinct : (bodyNames document).Nodup)
    {root : Nat} (rooted : document.IsRooted root) :
    Spans (bodyNames document) (connectionsAt document up) (bodyName document root) := by
  refine ⟨mem_bodyNames.mpr ⟨root, rooted.present, rfl⟩, ?_, ?_, ?_⟩
  · intro c member same
    obtain ⟨i, d, parent, found, place, rfl⟩ := mem_connectionsAt.mp member
    have absent := (rooted.alone i d found).mpr
      (bodyName_inj distinct (lt_of_joint found) rooted.present same)
    rw [position?_eq_none.mpr absent] at place
    contradiction
  · intro name member different
    obtain ⟨i, inside, rfl⟩ := mem_bodyNames.mp member
    have found := List.getElem?_eq_getElem inside
    have present := mt (rooted.alone i _ found).mp fun same => different (by rw [same])
    obtain ⟨parent, place, _⟩ := sound.exists_parent found present
    have listed := (@mem_connectionsAt document up _).mpr ⟨i, _, parent, found, place, rfl⟩
    exact List.count_eq_one_of_mem (children_nodup distinct) (List.mem_map.mpr ⟨_, listed, rfl⟩)
  · intro name member
    obtain ⟨i, inside, rfl⟩ := mem_bodyNames.mp member
    exact reaches_of_follows sound (rooted.leads i inside)

theorem rooted_of_spans (sound : document.InBounds) (distinct : (bodyNames document).Nodup)
    {name : String} (spans : Spans (bodyNames document) (connectionsAt document up) name) :
    ∃ root, bodyName document root = name ∧ document.IsRooted root := by
  obtain ⟨root, present, rfl⟩ := mem_bodyNames.mp spans.mem
  refine ⟨root, rfl, present, fun i d found => ⟨fun absent => ?_, ?_⟩, fun i inside => ?_⟩
  · by_contra different
    have inside := lt_of_joint found
    have single := spans.single _ (mem_bodyNames.mpr ⟨i, inside, rfl⟩) fun same =>
      different (bodyName_inj distinct inside present same)
    obtain ⟨c, member, same⟩ := List.mem_map.mp
      (List.count_pos_iff.mp (Nat.lt_of_lt_of_eq Nat.zero_lt_one single.symm))
    obtain ⟨j, x, parent, other, place, rfl⟩ := mem_connectionsAt.mp member
    obtain rfl := bodyName_inj distinct (lt_of_joint other) inside same
    cases other.symm.trans found
    rw [position?_eq_none.mpr absent] at place
    contradiction
  · rintro rfl
    by_contra parented
    obtain ⟨parent, place, _⟩ := sound.exists_parent found parented
    exact spans.rooted _ (mem_connectionsAt.mpr ⟨i, d, parent, found, place, rfl⟩) rfl
  · have path := spans.reached _ (mem_bodyNames.mpr ⟨i, inside, rfl⟩)
    obtain ⟨k, bound, same, path⟩ := follows_of_reaches sound distinct present path
    rwa [bodyName_inj distinct bound inside same] at path

/-- The connections span the bodies exactly if the parent indices form a rooted tree. -/
theorem spans_iff (sound : document.InBounds) (distinct : (bodyNames document).Nodup) :
    (∃ name, Spans (bodyNames document) (connectionsAt document up) name) ↔
      ∃ root, document.IsRooted root := by
  constructor
  · rintro ⟨name, spans⟩
    obtain ⟨root, _, rooted⟩ := rooted_of_spans sound distinct spans
    exact ⟨root, rooted⟩
  · rintro ⟨root, rooted⟩
    exact ⟨_, rooted.spans sound distinct⟩

end Articulation.Rlsim
