import Articulation.Proofs.Assembly.References
import Articulation.Proofs.Rlsim.Mirror
/-! The actuators that a document gets by default. Torque limits are found again by the names of joints, of
which only those of bodies have to be distinct. So the gear of an actuator is that of the last joint of the
name of its own, which is its own joint wherever no later one has the name. -/
namespace Articulation.Rlsim
open Assembly

/-! ### Torque limits -/

/-- What is found from behind is the last that will do. -/
theorem exists_last {α : Type} {p : α → Bool} {xs : List α} {x : α}
    (found : xs.reverse.find? p = some x) :
    p x = true ∧ ∃ k : Nat, xs[k]? = some x ∧ ∀ (m : Nat) y, k < m → xs[m]? = some y → p y = false := by
  obtain ⟨holds, i, inside, here, before⟩ := List.find?_eq_some_iff_getElem.mp found
  rw [List.length_reverse] at inside
  rw [List.getElem_reverse] at here
  refine ⟨holds, xs.length - 1 - i, List.getElem?_eq_some_iff.mpr ⟨by omega, here⟩, ?_⟩
  intro m y behind there
  obtain ⟨bound, rfl⟩ := List.getElem?_eq_some_iff.mp there
  have earlier := before (xs.length - 1 - m) (by omega)
  have place : xs.length - 1 - (xs.length - 1 - m) = m := by omega
  simpa only [List.getElem_reverse, place, Bool.not_eq_true'] using earlier

/-- The joint at the position is the last one of its name. -/
structure IsLastNamed (document : Document) (i : Nat) (d : JointDefinition) : Prop where
  found : document.joints[i]? = some d
  last : ∀ k later, i < k → document.joints[k]? = some later → later.name ≠ d.name

variable {surroundings : Surroundings} {document : Document} {robot : Robot}

theorem IsLastNamed.unique {i k : Nat} {d x : JointDefinition} (first : IsLastNamed document i d)
    (second : IsLastNamed document k x) (same : x.name = d.name) : d = x := by
  have below : ¬ i < k := fun bound => first.last k x bound second.found same
  have above : ¬ k < i := fun bound => second.last i d bound first.found same.symm
  obtain rfl : i = k := by omega
  exact Option.some.inj (first.found.symm.trans second.found)

/-- The torque limit of a name is that of the last joint that has it. -/
theorem exists_torqueLimit {i : Nat} {d : JointDefinition} (found : document.joints[i]? = some d) :
    ∃ k x, IsLastNamed document k x ∧ x.name = d.name ∧
      torqueLimit document d.name = x.torqueLimit := by
  have listed : d ∈ document.joints.reverse := List.mem_reverse.mpr (List.mem_of_getElem? found)
  have present : (document.joints.reverse.find? fun x => x.name == d.name).isSome = true :=
    List.find?_isSome.mpr ⟨d, listed, beq_self_eq_true _⟩
  obtain ⟨x, chosen⟩ := Option.isSome_iff_exists.mp present
  obtain ⟨named, k, there, last⟩ := exists_last chosen
  have same : x.name = d.name := beq_iff_eq.mp named
  refine ⟨k, x, ⟨there, ?_⟩, same, ?_⟩
  · intro m later behind present
    rw [same]
    exact beq_eq_false_iff_ne.mp (last m later behind present)
  · rw [torqueLimit, chosen]
    rfl

/-! ### Joints of the compiled tree -/

/-- The joint on the body is that of the definition at the position, after which the body is named. -/
structure IsJointAt (document : Document) (i : Nat) (d : JointDefinition) (on : Body × Joint) : Prop where
  found : document.joints[i]? = some d
  body : on.1.name = bodyName document i
  joint : ∃ owner world, on.2 = { joint d with pose := .identity, owner, world }

theorem IsJointAt.name {i : Nat} {d : JointDefinition} {on : Body × Joint}
    (is : IsJointAt document i d on) : on.2.name = d.name := by
  obtain ⟨owner, world, same⟩ := is.joint
  rw [same]
  rfl

/-- A compiled document has assembled its bodies, and its actuators are those of the tree. -/
theorem exists_tree (built : build surroundings document = .ok robot) :
    ∃ tree, IsTreeOf (bodiesAt document (upAxis surroundings.settings.rlsim document))
        (connectionsAt document (upAxis surroundings.settings.rlsim document)) tree ∧
      robot.linkage = .ofBody tree ∧
      robot.actuators = actuators surroundings.settings.rlsim document robot.linkage := by
  unfold build at built
  dsimp only at built
  split at built
  · contradiction
  · obtain ⟨ps, linked, built⟩ := bind_eq_ok.mp built
    obtain ⟨js, drawnOn, built⟩ := bind_eq_ok.mp built
    split at built
    rename_i links drawables session run
    have same := @parts_fst (upAxis surroundings.settings.rlsim document) document .start
    rw [run] at same
    cases same
    rw [bodies_eq (parents_eq_ok linked) (drawableJoints_eq_ok drawnOn),
      connections_eq (parents_eq_ok linked)] at built
    obtain ⟨tree, pairs, assembled, rfl⟩ := finished_eq_ok.mp built
    obtain ⟨p, stands, erected, _⟩ := assembleInto_eq_ok assembled
    exact ⟨tree, erect_isTreeOf (childless_bodiesAt document _) stands erected, rfl, rfl⟩

/-- Every joint of the tree is that of a definition. -/
theorem exists_jointAt {up : UpAxis} {tree : Body}
    (mirror : IsTreeOf (bodiesAt document up) (connectionsAt document up) tree) {on : Body × Joint}
    (listed : on ∈ (Linkage.ofBody tree).joints) : ∃ i d, IsJointAt document i d on := by
  obtain ⟨finished, present, carried⟩ := List.mem_flatMap.mp listed
  obtain ⟨only, held, rfl⟩ := List.mem_map.mp carried
  obtain ⟨body, member, bare⟩ := Linkage.exists_of_mem_ofBody present
  have declared := mirror.names.mem_iff.mp (List.mem_map_of_mem member)
  rw [names_bodiesAt] at declared
  obtain ⟨i, inside, named⟩ := mem_bodyNames.mp declared
  have found := List.getElem?_eq_getElem inside
  have same : finished.link.bare = (linkOf document up (document.joints[i], i)).bare := by
    rw [← Body.link_bare, bare, Body.link_bare, link_of_mem mirror member found named.symm]
  obtain ⟨owner, world, single⟩ := joints_of_bare same
  rw [single] at held
  exact ⟨i, _, found, congrArg Link.name same, owner, world, List.mem_singleton.mp held⟩

theorem isActuated_eq (type : JointType) :
    type.isActuated = decide (type ∈ [JointType.revolute, .prismatic, .spherical]) := by
  cases type <;> rfl

/-- The gear for a torque limit, which counts only above zero. -/
def gearOf (limit : Float32) : Float32 := if 0 < limit then limit else fallbackGear

/-- The actuator drives the joint, which it is named after, by a controller with one gear. -/
structure Drives (a : Actuator) (joint : Joint) (gear : Float32) : Prop where
  name : a.name = joint.name
  kind : a.kind = .pd
  joint : a.joint = some joint.name
  gear : a.gear = [gear]

theorem drives_controller (document : Document) (joint : Joint) :
    Drives (controller document joint.name) joint (gearOf (torqueLimit document joint.name)) :=
  ⟨rfl, rfl, rfl, rfl⟩

/-- The joints that get an actuator, in pre-order, each with its body. -/
def drivenJoints (linkage : Linkage) : List (Body × Joint) :=
  linkage.joints.filter fun on => on.2.type ∈ [JointType.revolute, .prismatic, .spherical]

theorem actuators_eq (enabled : surroundings.settings.rlsim.defaultActuators = true)
    (linkage : Linkage) : actuators surroundings.settings.rlsim document linkage =
      (drivenJoints linkage).map fun on => controller document on.2.name := by
  rw [actuators, if_pos enabled, Linkage.actuatedJoints, drivenJoints, List.filter_map, List.map_map]
  simp only [Function.comp_def, isActuated_eq]

/-- Default actuators stand in the order of the revolute, prismatic and spherical joints. Each drives its
joint, with the gear for the torque limit that the last joint of the same name has in the document; where no
later joint has the name, that is the limit of the very joint. -/
theorem build_geared (enabled : surroundings.settings.rlsim.defaultActuators = true)
    (built : build surroundings document = .ok robot) :
    List.Forall₂ (fun on a => ∃ i d k x, IsJointAt document i d on ∧
        IsLastNamed document k x ∧ x.name = d.name ∧ Drives a on.2 (gearOf x.torqueLimit) ∧
        (IsLastNamed document i d → Drives a on.2 (gearOf d.torqueLimit)))
      (drivenJoints robot.linkage) robot.actuators := by
  obtain ⟨tree, mirror, linkage, driven⟩ := exists_tree built
  rw [driven, actuators_eq enabled, List.forall₂_map_right_iff, List.forall₂_same]
  intro on listed
  rw [linkage] at listed
  obtain ⟨i, d, is⟩ := exists_jointAt mirror (List.mem_filter.mp listed).1
  obtain ⟨k, x, last, same, limit⟩ := exists_torqueLimit is.found
  have drives := drives_controller document on.2
  rw [is.name, limit, ← is.name] at drives
  refine ⟨i, d, k, x, is, last, same, drives, fun own => ?_⟩
  rw [own.unique last same]
  exact drives

/-- Three joints of which the first two have one name and limits of their own. -/
def twins : Document :=
  ⟨[⟨"hip", "hinge", noIndex, 150, 0, 0, ⟨.zero, .zero⟩⟩, ⟨"hip", "ball", 0, 60, 0, 0, ⟨.zero, .zero⟩⟩,
    ⟨"knee", "slide", 1, 0, 0, 0, ⟨.zero, .zero⟩⟩],
    [⟨"pelvis", "box", 1, .splat 1, ⟨.zero, .zero⟩⟩, ⟨"thigh", "box", 1, .splat 1, ⟨.zero, .zero⟩⟩,
    ⟨"shin", "box", 1, .splat 1, ⟨.zero, .zero⟩⟩], [], none⟩

theorem build_geared_twins :
    (Surroundings.ofSettings .standard).settings.rlsim.defaultActuators = true ∧
    ∃ robot, build (.ofSettings .standard) twins = .ok robot ∧
      (drivenJoints robot.linkage).map (fun on => on.1.name) = ["pelvis", "thigh", "shin"] ∧
      List.Forall₂ (fun on a => ∃ i d k x, IsJointAt twins i d on ∧
          IsLastNamed twins k x ∧ x.name = d.name ∧ Drives a on.2 (gearOf x.torqueLimit) ∧
          (IsLastNamed twins i d → Drives a on.2 (gearOf d.torqueLimit)))
        (drivenJoints robot.linkage) robot.actuators := by
  have names : (fun robot => (drivenJoints robot.linkage).map fun on => on.1.name) <$>
      build (.ofSettings .standard) twins = .ok ["pelvis", "thigh", "shin"] := by decide +kernel
  obtain ⟨robot, built, named⟩ := map_eq_ok.mp names
  exact ⟨rfl, robot, built, named, build_geared rfl built⟩

/-- The first of the two joints is not driven with the gear for its own limit. -/
theorem twins_misgeared :
    ∃ robot, build (.ofSettings .standard) twins = .ok robot ∧
      ¬ List.Forall₂ (fun on a => ∃ i d, IsJointAt twins i d on ∧ Drives a on.2 (gearOf d.torqueLimit))
        (drivenJoints robot.linkage) robot.actuators := by
  have answer : (fun robot => ((drivenJoints robot.linkage).map fun on => on.1.name,
      robot.actuators.map Actuator.gear)) <$> build (.ofSettings .standard) twins =
      .ok (["pelvis", "thigh", "shin"], [[60], [60], [10]]) := by decide +kernel
  obtain ⟨robot, built, read⟩ := map_eq_ok.mp answer
  obtain ⟨names, gears⟩ := Prod.mk.inj read
  refine ⟨robot, built, fun all => ?_⟩
  generalize drivenJoints robot.linkage = driven at names all
  generalize robot.actuators = actuators at gears all
  cases all with
  | nil => contradiction
  | cons first rest =>
    obtain ⟨i, d, is, drives⟩ := first
    have pelvis : bodyName twins i = "pelvis" := is.body.symm.trans (List.cons.inj names).1
    have gear : [gearOf d.torqueLimit] = [60] := drives.gear.symm.trans (List.cons.inj gears).1
    have own : ∀ i, i < twins.joints.length → bodyName twins i = "pelvis" → i = 0 := by decide +kernel
    obtain rfl := own i (lt_of_joint is.found) pelvis
    obtain rfl : twins.joints[0] = d := Option.some.inj is.found
    exact absurd gear (by decide +kernel)

end Articulation.Rlsim
