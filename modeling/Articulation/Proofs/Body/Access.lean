import Articulation.Proofs.Body.Numbering
import Articulation.Proofs.Rose.Positions
import Articulation.Proofs.Traversal
import Mathlib.Data.List.Nodup
import Mathlib.Data.Option.Basic
/-! Ways to a body of a finished tree. The id of a body is its position in pre-order, so that the bodies in
order, an id, a search for an id from the root down and the way back from a child all lead to the same
body. -/
namespace Articulation

namespace Body

variable {body x : Body} {id : Nat} {world : Pose}

/-! ### What stands in a finished tree -/

theorem mem_subtrees_number {parent : Option Nat} {next : Nat}
    (member : x ∈ (number parent next body).1.subtrees) :
    ∃ before ∈ body.subtrees, ∃ parent next, x = (number parent next before).1 := by
  induction body using Rose.induction generalizing parent next with
  | step link children ih =>
    rcases Rose.mem_subtrees.mp member with rfl | ⟨child, hanging, inside⟩
    · exact ⟨_, Rose.self_mem_subtrees _, parent, next, rfl⟩
    · rw [number_eq_node, Rose.children_node] at hanging
      obtain ⟨earlier, listed, first, rfl⟩ := mem_numberAll hanging
      obtain ⟨before, below, same⟩ := ih earlier listed inside
      exact ⟨before, Rose.mem_subtrees.mpr (.inr ⟨earlier, listed, below⟩), same⟩

theorem mem_subtrees_propagate {around : Pose} (member : x ∈ (body.propagate around).subtrees) :
    ∃ before ∈ body.subtrees, ∃ around, x = propagate around before := by
  induction body using Rose.induction generalizing around with
  | step link children ih =>
    rcases Rose.mem_subtrees.mp member with rfl | ⟨child, hanging, inside⟩
    · exact ⟨_, Rose.self_mem_subtrees _, around, rfl⟩
    · rw [propagate_eq_node, Rose.children_node] at hanging
      obtain ⟨earlier, listed, rfl⟩ := List.mem_map.mp hanging
      obtain ⟨before, below, same⟩ := ih earlier listed inside
      exact ⟨before, Rose.mem_subtrees.mpr (.inr ⟨earlier, listed, below⟩), same⟩

theorem owner_number {parent : Option Nat} {next : Nat} {joint : Joint}
    (listed : joint ∈ (number parent next body).1.link.joints) :
    joint.owner = (number parent next body).1.link.id := by
  cases body
  rw [number_eq_node] at listed ⊢
  obtain ⟨before, _, rfl⟩ := List.mem_map.mp listed
  rfl

theorem owner_propagate {around : Pose} (owned : ∀ joint ∈ body.link.joints, joint.owner = body.link.id)
    {joint : Joint} (listed : joint ∈ (body.propagate around).link.joints) :
    joint.owner = (body.propagate around).link.id := by
  cases body
  rw [propagate_eq_node] at listed ⊢
  obtain ⟨before, member, rfl⟩ := List.mem_map.mp listed
  exact owned before member

/-! ### The search for an id -/

/-- The link with another world pose, if it has the id. -/
def overwrite (id : Nat) (world : Pose) (link : Link) : Link :=
  if link.id = some id then { link with world } else link

/-- The ids of a body and of all bodies below it. -/
def ids (body : Body) : List (Option Nat) := body.preorder.map Link.id

theorem ids_node (link : Link) (children : List Body) :
    ids (.node link children) = link.id :: children.flatMap ids := by
  rw [ids, Rose.preorder_eq, List.map_cons, List.map_flatMap]
  rfl

/-- Links of other ids stay as they are. -/
theorem map_overwrite_of_absent (absent : some id ∉ body.ids) : body.map (overwrite id world) = body := by
  induction body using Rose.induction with
  | step link children ih =>
    rw [ids_node, List.mem_cons, not_or, List.mem_flatMap] at absent
    obtain ⟨other, below⟩ := absent
    have here : overwrite id world link = link := if_neg (Ne.symm other)
    have same : children.map (Rose.map (overwrite id world)) = children :=
      (List.map_congr_left fun child member =>
        ih child member fun inside => below ⟨child, member, inside⟩).trans (List.map_id _)
    rw [Rose.map, Rose.mapAll_eq, same, here]

theorem overwriteAll_of_absent {bodies : List Body} (absent : some id ∉ bodies.flatMap ids) :
    bodies.map (Rose.map (overwrite id world)) = bodies :=
  (List.map_congr_left fun body member => map_overwrite_of_absent fun inside =>
    absent (List.mem_flatMap.mpr ⟨body, member, inside⟩)).trans (List.map_id _)

theorem writeWorldAll?_eq {bodies : List Body}
    (each : ∀ body ∈ bodies, body.ids.Nodup → body.writeWorld? id world =
      if some id ∈ body.ids then some (body.map (overwrite id world)) else none)
    (once : (bodies.flatMap ids).Nodup) :
    writeWorldAll? id world bodies =
      if some id ∈ bodies.flatMap ids then some (bodies.map (Rose.map (overwrite id world))) else none := by
  induction bodies with
  | nil => rfl
  | cons body bodies ih =>
    obtain ⟨first, rest⟩ := List.forall_mem_cons.mp each
    rw [List.flatMap_cons] at once ⊢
    obtain ⟨own, others, apart⟩ := List.nodup_append.mp once
    rw [writeWorldAll?, first own, ih rest others, List.map_cons]
    by_cases here : some id ∈ body.ids
    · -- what is found first is all there is of that id
      have absent : some id ∉ bodies.flatMap ids := fun later => apart _ here _ later rfl
      rw [if_pos here, if_pos (List.mem_append_left _ here), overwriteAll_of_absent absent]
    · rw [if_neg here, map_overwrite_of_absent here]
      by_cases later : some id ∈ bodies.flatMap ids
      · rw [if_pos later, if_pos (List.mem_append_right _ later)]
        rfl
      · rw [if_neg later, if_neg fun both => (List.mem_append.mp both).elim here later]
        rfl

/-- Where no id stands twice, a search finds the only body of an id. -/
theorem writeWorld?_eq (once : body.ids.Nodup) :
    body.writeWorld? id world =
      if some id ∈ body.ids then some (body.map (overwrite id world)) else none := by
  induction body using Rose.induction with
  | step link children ih =>
    rw [ids_node] at once ⊢
    obtain ⟨fresh, below⟩ := List.nodup_cons.mp once
    rw [writeWorld?, Rose.map, Rose.mapAll_eq, overwrite]
    by_cases here : link.id = some id
    · have absent : some id ∉ children.flatMap ids := here ▸ fresh
      rw [if_pos here, if_pos here, overwriteAll_of_absent absent, if_pos (List.mem_cons.mpr (.inl here.symm))]
    · rw [if_neg here, if_neg here, writeWorldAll?_eq ih below]
      by_cases later : some id ∈ children.flatMap ids
      · rw [if_pos later, if_pos (List.mem_cons_of_mem _ later)]
        rfl
      · rw [if_neg later, if_neg fun both => (List.mem_cons.mp both).elim (Ne.symm here) later]
        rfl

end Body

namespace Linkage

variable {t : Linkage} {tree body x child : Body} {i id : Nat} {world : Pose}

/-- The ids are the positions in pre-order. -/
def Numbered (t : Linkage) : Prop := t.root.ids = (List.range t.size).map some

theorem preorder_bodies (t : Linkage) : t.bodies = t.root.subtrees := by rw [bodies, Body.bodies_eq]

theorem preorder_eq_bodies (t : Linkage) : t.root.preorder = t.bodies.map Body.link := by
  rw [preorder_bodies]
  rfl

/-- The tree is another one with the world pose of the body at one position overwritten. -/
structure Overwritten (t u : Linkage) (id : Nat) (world : Pose) : Prop where
  size : u.size = t.size
  shape : u.root.map (fun _ => ()) = t.root.map fun _ => ()
  links : u.root.preorder = t.root.preorder.modify id fun link => { link with world }

namespace Numbered

theorem length (numbered : t.Numbered) : t.bodies.length = t.size := by
  have length := congrArg List.length numbered
  rwa [Body.ids, preorder_eq_bodies, List.length_map, List.length_map, List.length_map,
    List.length_range] at length

theorem id_at (numbered : t.Numbered) {link : Link} (here : t.root.preorder[i]? = some link) :
    link.id = some i := by
  have ids := congrArg (·[i]?) numbered
  simp only [Body.ids, List.getElem?_map, here, Option.map_some] at ids
  obtain ⟨_, found, same⟩ := Option.map_eq_some_iff.mp ids.symm
  rw [← same, eq_of_getElem?_range found]

theorem id_eq (numbered : t.Numbered) (here : t.bodies[i]? = some body) : body.link.id = some i := by
  apply numbered.id_at
  rw [preorder_eq_bodies, List.getElem?_map, here, Option.map_some]

theorem ids_nodup (numbered : t.Numbered) : t.root.ids.Nodup := by
  rw [numbered]
  exact List.nodup_range.map (Option.some_injective _)

theorem nodup (numbered : t.Numbered) : t.bodies.Nodup := by
  have once := numbered.ids_nodup
  rw [Body.ids, preorder_eq_bodies, List.map_map] at once
  exact once.of_map

theorem get?_isSome (numbered : t.Numbered) (i : Nat) : (t.get? i).isSome = true ↔ i < t.size := by
  rw [get?, isSome_getElem?, numbered.length]

/-- Parents come before their children. -/
theorem lt_child (numbered : t.Numbered) {j : Nat} (member : x ∈ t.bodies) (hanging : child ∈ x.children)
    (upper : x.link.id = some i) (lower : child.link.id = some j) : i < j := by
  have pair : [x, child].Sublist t.bodies := by
    rw [preorder_bodies] at member ⊢
    exact Rose.pair_sublist member hanging
  have numbers := (pair.map Body.link).map Link.id
  rw [← preorder_eq_bodies, ← Body.ids, numbered, List.map_cons, List.map_cons, List.map_singleton,
    List.map_singleton, upper, lower] at numbers
  have ascending : ((List.range t.size).map some).Pairwise fun a b => ∀ i ∈ a, ∀ j ∈ b, i < j := by
    rw [List.pairwise_map]
    refine List.pairwise_lt_range.imp fun {i j} less _ first _ second => ?_
    cases first
    cases second
    exact less
  exact List.pairwise_iff_forall_sublist.mp ascending numbers i rfl j rfl

/-- A write finds the body at the position of the id, if there is one. -/
theorem writeWorld?_eq (numbered : t.Numbered) (id : Nat) (world : Pose) :
    t.writeWorld? id world =
      if id < t.size then some { t with root := t.root.map (Body.overwrite id world) } else none := by
  have listed : some id ∈ t.root.ids ↔ id < t.size := by
    rw [numbered, List.mem_map_of_injective (Option.some_injective _), List.mem_range]
  rw [writeWorld?, Body.writeWorld?_eq numbered.ids_nodup]
  by_cases inside : id < t.size
  · rw [if_pos inside, if_pos (listed.mpr inside), Option.map_some]
  · rw [if_neg inside, if_neg fun member => inside (listed.mp member), Option.map_none]

theorem overwritten (numbered : t.Numbered) (id : Nat) (world : Pose) :
    t.Overwritten { t with root := t.root.map (Body.overwrite id world) } id world := by
  refine ⟨rfl, Rose.map_map _ _ _, ?_⟩
  rw [Rose.preorder_map]
  refine List.ext_getElem? fun i => ?_
  rw [List.getElem?_map, List.getElem?_modify]
  cases here : t.root.preorder[i]? with
  | none => rfl
  | some link =>
    have own : link.id = some i := numbered.id_at here
    simp only [Option.map_some, Option.map_eq_map, Body.overwrite, own, Option.some.injEq, eq_comm]

end Numbered

/-! ### Finished trees -/

theorem size_ofBody (tree : Body) : (ofBody tree).size = tree.size :=
  (Body.number_snd tree none 0).trans (Nat.zero_add _)

theorem numbered_ofBody (tree : Body) : (ofBody tree).Numbered := by
  have ids := ids_ofBody tree
  rw [← size_ofBody] at ids
  rw [Numbered, Body.ids, preorder_eq_bodies, List.map_map]
  exact ids

/-- Every joint knows the body that holds it. -/
theorem owner_ofBody {joint : Joint} (member : body ∈ (ofBody tree).bodies)
    (listed : joint ∈ body.link.joints) : joint.owner = body.link.id := by
  rw [preorder_bodies] at member
  obtain ⟨numbered, inside, around, rfl⟩ := Body.mem_subtrees_propagate member
  obtain ⟨before, _, parent, next, rfl⟩ := Body.mem_subtrees_number inside
  exact Body.owner_propagate (fun joint => Body.owner_number) listed

theorem getElem?_bodies_zero (t : Linkage) : t.bodies[0]? = some t.root := by
  rw [preorder_bodies, Rose.subtrees_eq]
  rfl

/-- A child is that of the body whose id it has for its parent, and of no other. -/
theorem mem_children_iff (member : x ∈ (ofBody tree).bodies) (inside : child ∈ (ofBody tree).bodies) :
    child ∈ x.children ↔ (ofBody tree).parentOf? child = some x := by
  refine ⟨parentOf?_child member, fun found => ?_⟩
  by_cases same : child = (ofBody tree).root
  · rw [same, parentOf?_root] at found
    cases found
  · obtain ⟨parent, _, hanging, known⟩ := exists_parentOf? inside same
    exact Option.some.inj (known.symm.trans found) ▸ hanging

/-- A tree and what it is once it is finished: nothing that it held is changed, every body is found at the
position that is its id, and parents and owners are told by their ids. -/
structure Finished (tree : Body) (t : Linkage) : Prop where
  kept : t.root.bare = tree.bare
  preorder : t.bodies = t.root.subtrees
  once : t.bodies.Nodup
  size : t.size = t.root.size
  length : t.bodies.length = t.size
  id : ∀ i (body : Body), t.bodies[i]? = some body → body.link.id = some i
  root : ∀ i (body : Body), t.bodies[i]? = some body → (body.link.parent = none ↔ i = 0)
  parent : ∀ i (body : Body) p, t.bodies[i]? = some body → body.link.parent = some p →
    p < i ∧ ∃ x, t.bodies[p]? = some x ∧ ∀ y ∈ t.bodies, body ∈ y.children ↔ y = x
  owner : ∀ i (body : Body), t.bodies[i]? = some body → ∀ joint ∈ body.link.joints, joint.owner = some i
  get : ∀ i, t.get? i = t.bodies[i]? ∧ ((t.get? i).isSome = true ↔ i < t.size)
  write : ∀ i world, (t.writeWorld? i world = none ↔ t.size ≤ i) ∧
    ∀ u, t.writeWorld? i world = some u → t.Overwritten u i world
  parentOf : t.parentOf? t.root = none ∧ ∀ x ∈ t.bodies, ∀ child ∈ t.bodies,
    t.parentOf? child = some x ↔ child ∈ x.children

theorem parent_eq_none_iff (here : (ofBody tree).bodies[i]? = some body) :
    body.link.parent = none ↔ i = 0 := by
  constructor
  · intro none
    by_contra later
    have member := List.mem_of_getElem? here
    have other : body ≠ (ofBody tree).root := by
      rintro rfl
      have same := (numbered_ofBody tree).id_eq here
      rw [(numbered_ofBody tree).id_eq (getElem?_bodies_zero _)] at same
      exact later (Option.some.inj same).symm
    obtain ⟨x, _, _, found⟩ := exists_parentOf? member other
    rw [parentOf?, none] at found
    cases found
  · rintro rfl
    rw [getElem?_bodies_zero] at here
    cases here
    exact parent_root tree

theorem parent_eq_some {p : Nat} (here : (ofBody tree).bodies[i]? = some body)
    (known : body.link.parent = some p) :
    p < i ∧ ∃ x, (ofBody tree).bodies[p]? = some x ∧
      ∀ y ∈ (ofBody tree).bodies, body ∈ y.children ↔ y = x := by
  have numbered := numbered_ofBody tree
  have member := List.mem_of_getElem? here
  have other : body ≠ (ofBody tree).root := by
    rintro rfl
    have none : (ofBody tree).root.link.parent = none := parent_root tree
    rw [none] at known
    cases known
  obtain ⟨x, inside, hanging, found⟩ := exists_parentOf? member other
  have position : (ofBody tree).bodies[p]? = some x := by
    rw [parentOf?, known] at found
    exact found
  refine ⟨numbered.lt_child inside hanging (numbered.id_eq position) (numbered.id_eq here), x, position, ?_⟩
  intro y listed
  rw [mem_children_iff listed member, found, Option.some.injEq, eq_comm]

theorem finished_ofBody (tree : Body) : Finished tree (ofBody tree) := by
  have numbered := numbered_ofBody tree
  have written (i : Nat) (world : Pose) := numbered.writeWorld?_eq i world
  constructor
  · exact bare_ofBody tree
  · exact preorder_bodies _
  · exact numbered.nodup
  · rw [← Rose.length_subtrees, ← preorder_bodies, numbered.length]
  · exact numbered.length
  · exact fun i body here => numbered.id_eq here
  · exact fun i body here => parent_eq_none_iff here
  · exact fun i body p here known => parent_eq_some here known
  · intro i body here joint listed
    rw [owner_ofBody (List.mem_of_getElem? here) listed, numbered.id_eq here]
  · exact fun i => ⟨rfl, numbered.get?_isSome i⟩
  · intro i world
    constructor
    · rw [written, ite_eq_right_iff, ← Nat.not_lt]
      exact ⟨fun never inside => Option.some_ne_none _ (never inside), fun out inside => absurd inside out⟩
    · intro u done
      rw [written] at done
      split at done
      · cases done
        exact numbered.overwritten i world
      · cases done
  · exact ⟨parentOf?_root tree, fun x member child inside => (mem_children_iff member inside).symm⟩

end Linkage

end Articulation
