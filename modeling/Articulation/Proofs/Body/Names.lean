import Articulation.Body.Linkage
/-! Bodies and joints by name. Whether a tree has a body or a joint of some name is read off the names alone,
so that trees with the same names answer alike, whatever else they hold. -/
namespace Articulation.Linkage

variable {t u : Linkage} {name : String}

theorem find?_isSome_iff : (t.find? name).isSome = true ↔ name ∈ t.bodies.map Body.name := by
  rw [find?, Body.find?, List.find?_isSome, List.mem_map]
  exact exists_congr fun body => and_congr_right fun _ => beq_iff_eq

theorem joint?_isSome_iff : (t.joint? name).isSome = true ↔ name ∈ t.joints.map fun j => j.2.name := by
  rw [joint?, Option.isSome_map, List.find?_isSome, List.mem_map]
  exact exists_congr fun pair => and_congr_right fun _ => beq_iff_eq

/-- The bodies of the trees have the same names in pre-order, and so have their joints. -/
structure SameNames (t u : Linkage) : Prop where
  bodies : t.bodies.map Body.name = u.bodies.map Body.name
  joints : (t.joints.map fun j => j.2.name) = u.joints.map fun j => j.2.name

namespace SameNames

theorem find?_isSome (same : t.SameNames u) (name : String) :
    (t.find? name).isSome = (u.find? name).isSome := by
  rw [Bool.eq_iff_iff, find?_isSome_iff, find?_isSome_iff, same.bodies]

theorem joint?_isSome (same : t.SameNames u) (name : String) :
    (t.joint? name).isSome = (u.joint? name).isSome := by
  rw [Bool.eq_iff_iff, joint?_isSome_iff, joint?_isSome_iff, same.joints]

/-- A change of the links that keeps the names of links and joints keeps those of a tree. -/
theorem of_map {f : Link → Link} (named : ∀ link, (f link).name = link.name)
    (jointed : ∀ link, (f link).joints.map Joint.name = link.joints.map Joint.name)
    (same : t.root.map f = u.root.map f) : SameNames t u := by
  have mapped : t.bodies.map (Rose.map f) = u.bodies.map (Rose.map f) := by
    rw [Linkage.bodies, Linkage.bodies, Body.bodies_eq, Body.bodies_eq, ← Rose.subtrees_map, same,
      Rose.subtrees_map]
  have link (body : Body) : Body.link (body.map f) = f body.link := Rose.value_map f body
  have name (body : Body) : Body.name (body.map f) = body.name := by
    rw [Body.name, link, named, Body.name]
  have joints (t : Linkage) : (t.joints.map fun j => j.2.name) =
      (t.bodies.map (Rose.map f)).flatMap fun body => (Body.link body).joints.map Joint.name := by
    rw [Linkage.joints, List.map_flatMap, List.flatMap_map]
    refine congrArg List.flatten (List.map_congr_left fun body _ => ?_)
    rw [List.map_map, link, jointed]
    rfl
  constructor
  · have names := congrArg (List.map Body.name) mapped
    simpa only [List.map_map, Function.comp_def, name] using names
  · rw [joints t, mapped, ← joints u]

end SameNames

end Articulation.Linkage
