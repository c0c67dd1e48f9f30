import Articulation.Proofs.Body.Finishing
/-! The ids of a finished tree are the positions in pre-order, and the parent of a body is the id of the
body around it. So a body finds its parent by id, and the bodies tell the edges of the tree. -/
namespace Articulation

namespace Body

/-! ### Numbers -/

/-- The link with an id, a parent and joints of its own. -/
def numbered (parent : Option Nat) (id : Nat) (link : Link) : Link :=
  { link with id := some id, parent, joints := link.joints.map fun joint => { joint with owner := some id } }

theorem numberAll_eq_cons (parent : Option Nat) (next : Nat) (body : Body) (bodies : List Body) :
    numberAll parent next (body :: bodies) =
      ((number parent next body).1 :: (numberAll parent (number parent next body).2 bodies).1,
        (numberAll parent (number parent next body).2 bodies).2) := by
  rw [numberAll]

theorem number_eq_node (parent : Option Nat) (next : Nat) (link : Link) (children : List Body) :
    number parent next (.node link children) =
      (.node (numbered parent next link) (numberAll (some next) (next + 1) children).1,
        (numberAll (some next) (next + 1) children).2) := by
  rw [number]
  rfl

theorem numberAll_map {f g : Link → Link} {bodies : List Body}
    (each : ∀ body ∈ bodies, ∀ parent next, number parent next (body.map f) =
      ((number parent next body).1.map g, (number parent next body).2))
    (parent : Option Nat) (next : Nat) :
    numberAll parent next (bodies.map (Rose.map f)) =
      ((numberAll parent next bodies).1.map (Rose.map g), (numberAll parent next bodies).2) := by
  induction bodies generalizing next with
  | nil => rfl
  | cons body bodies ih =>
    obtain ⟨first, rest⟩ := List.forall_mem_cons.mp each
    rw [List.map_cons, numberAll_eq_cons, numberAll_eq_cons, first, ih rest, List.map_cons]

/-- What is done to the links before they are numbered may be done afterwards, in so far as numbers do not
overwrite it. -/
theorem number_map {f g : Link → Link}
    (commutes : ∀ parent id link, g (numbered parent id link) = numbered parent id (f link)) (body : Body)
    (parent : Option Nat) (next : Nat) :
    number parent next (body.map f) =
      ((number parent next body).1.map g, (number parent next body).2) := by
  induction body using Rose.induction generalizing parent next with
  | step link children ih =>
    rw [Rose.map, Rose.mapAll_eq, number_eq_node, number_eq_node, numberAll_map ih, Rose.map,
      Rose.mapAll_eq, commutes]

theorem numberAll_snd {bodies : List Body}
    (each : ∀ body ∈ bodies, ∀ parent next, (number parent next body).2 = next + body.size)
    (parent : Option Nat) (next : Nat) :
    (numberAll parent next bodies).2 = next + Rose.sizeAll bodies := by
  induction bodies generalizing next with
  | nil => rfl
  | cons body bodies ih =>
    obtain ⟨first, rest⟩ := List.forall_mem_cons.mp each
    rw [numberAll_eq_cons, ih rest, first, Rose.sizeAll, Nat.add_assoc]

/-- A tree takes up as many ids as it has bodies. -/
theorem number_snd (body : Body) (parent : Option Nat) (next : Nat) :
    (number parent next body).2 = next + body.size := by
  induction body using Rose.induction generalizing parent next with
  | step link children ih =>
    rw [number_eq_node, numberAll_snd ih, Rose.size, Nat.add_assoc]

theorem ids_numberAll {bodies : List Body}
    (each : ∀ body ∈ bodies, ∀ parent next, (number parent next body).1.subtrees.map (·.value.id) =
      (List.range' next body.size).map some) (parent : Option Nat) (next : Nat) :
    (Rose.subtreesAll (numberAll parent next bodies).1).map (·.value.id) =
      (List.range' next (Rose.sizeAll bodies)).map some := by
  induction bodies generalizing next with
  | nil => rfl
  | cons body bodies ih =>
    obtain ⟨first, rest⟩ := List.forall_mem_cons.mp each
    rw [numberAll_eq_cons, Rose.subtreesAll, List.map_append, first, ih rest, number_snd, Rose.sizeAll,
      ← List.map_append, List.range'_append_1]

theorem ids_number (body : Body) (parent : Option Nat) (next : Nat) :
    (number parent next body).1.subtrees.map (·.value.id) =
      (List.range' next body.size).map some := by
  induction body using Rose.induction generalizing parent next with
  | step link children ih =>
    rw [number_eq_node, Rose.subtrees_eq, List.map_cons, Rose.children_node, ids_numberAll ih, Rose.size,
      Nat.add_comm 1, List.range'_succ, List.map_cons]
    rfl

theorem mem_numberAll {bodies : List Body} {parent : Option Nat} {next : Nat} {numbered : Body}
    (member : numbered ∈ (numberAll parent next bodies).1) :
    ∃ body ∈ bodies, ∃ first, numbered = (number parent first body).1 := by
  induction bodies generalizing next with
  | nil => cases member
  | cons body bodies ih =>
    rw [numberAll_eq_cons] at member
    rcases List.mem_cons.mp member with rfl | later
    · exact ⟨body, List.mem_cons_self, next, rfl⟩
    · obtain ⟨other, listed, found⟩ := ih later
      exact ⟨other, List.mem_cons_of_mem _ listed, found⟩

theorem parent_number (body : Body) (parent : Option Nat) (next : Nat) :
    (number parent next body).1.value.parent = parent := by
  cases body
  rw [number_eq_node, Rose.value_node, numbered]

/-- Every child has the id of the body around it for its parent. -/
theorem parents_number (body : Body) (parent : Option Nat) (next : Nat) :
    ∀ x ∈ (number parent next body).1.subtrees, ∀ child ∈ x.children,
      child.value.parent = x.value.id := by
  induction body using Rose.induction generalizing parent next with
  | step link children ih =>
    intro x inside child hanging
    rw [number_eq_node] at inside
    rcases Rose.mem_subtrees.mp inside with rfl | ⟨below, member, inside⟩
    · obtain ⟨before, _, first, rfl⟩ := mem_numberAll hanging
      exact parent_number before _ _
    · obtain ⟨before, listed, first, rfl⟩ := mem_numberAll member
      exact ih before listed _ _ x inside child hanging

/-! ### World poses -/

/-- The link with world poses, chained from the one around it. -/
def chained (parentWorld : Pose) (link : Link) : Link :=
  { link with
    world := parentWorld * link.pose
    joints := link.joints.map fun joint => { joint with world := parentWorld * link.pose * joint.pose } }

theorem propagate_eq_node (parentWorld : Pose) (link : Link) (children : List Body) :
    propagate parentWorld (.node link children) =
      .node (chained parentWorld link) (children.map (propagate (parentWorld * link.pose))) := by
  rw [propagate, propagateAll_eq]
  rfl

/-- What reads no world poses may be done to the links before or after these are chained. -/
theorem propagate_map {f : Link → Link} (pose : ∀ link, (f link).pose = link.pose)
    (commutes : ∀ world link, f (chained world link) = chained world (f link)) (body : Body)
    (world : Pose) : propagate world (body.map f) = (body.propagate world).map f := by
  induction body using Rose.induction generalizing world with
  | step link children ih =>
    have below : (children.map (Rose.map f)).map (propagate (world * link.pose)) =
        (children.map (propagate (world * link.pose))).map (Rose.map f) := by
      rw [List.map_map, List.map_map]
      exact List.map_congr_left fun child member => ih child member _
    rw [Rose.map, Rose.mapAll_eq, propagate_eq_node, pose, below, propagate_eq_node, Rose.map,
      Rose.mapAll_eq, commutes]

/-- Chaining world poses changes nothing else. -/
theorem map_propagate {α : Type} {f : Link → α} (same : ∀ world link, f (chained world link) = f link)
    (body : Body) (world : Pose) : (body.propagate world).map f = body.map f := by
  induction body using Rose.induction generalizing world with
  | step link children ih =>
    rw [propagate_eq_node, Rose.map, Rose.map, Rose.mapAll_eq, Rose.mapAll_eq, List.map_map, same]
    exact congrArg (Rose.node _) (List.map_congr_left fun child member => ih child member _)

/-! ### Edges -/

mutual
/-- The edges below a body in pre-order of the child, by the names of parent and child. -/
def branches : Body → List (String × String)
  | .node link children => branchesAll link.name children

def branchesAll (parent : String) : List Body → List (String × String)
  | [] => []
  | body :: bodies => (parent, body.name) :: branches body ++ branchesAll parent bodies
end

theorem branchesAll_eq (parent : String) (bodies : List Body) :
    branchesAll parent bodies = bodies.flatMap fun body => (parent, body.name) :: body.branches := by
  induction bodies with
  | nil => rfl
  | cons body bodies ih => rw [branchesAll, ih, List.flatMap_cons]

theorem branches_eq (body : Body) :
    body.branches = body.children.flatMap fun child : Body => (body.name, child.name) :: child.branches := by
  cases body
  exact branchesAll_eq _ _

theorem branches_bare (body : Body) : body.bare.branches = body.branches := by
  induction body using Rose.induction with
  | step link children ih =>
    rw [branches_eq, children_bare, List.flatMap_map, branches_eq, name_bare]
    refine congrArg List.flatten (List.map_congr_left fun child member => ?_)
    rw [name_bare, ih child member]

end Body

namespace Linkage

variable {tree : Body}

/-- What a finished link is numbered by. -/
def rank (link : Link) : Option Nat × Option Nat := (link.id, link.parent)

theorem ranks_ofBody (tree : Body) :
    (ofBody tree).root.map rank = (tree.number none 0).1.map rank :=
  Body.map_propagate (fun _ _ => rfl) _ _

theorem ids_ofBody (tree : Body) :
    (ofBody tree).bodies.map (·.value.id) = (List.range tree.size).map some := by
  have ranks := congrArg (fun ranked => ranked.subtrees.map fun x => x.value.1) (ranks_ofBody tree)
  simp only [Rose.subtrees_map, List.map_map, Function.comp_def, Rose.value_map, rank] at ranks
  rw [bodies, Body.bodies_eq, ranks, Body.ids_number, List.range_eq_range']

theorem parents_ofBody {x child : Body} (member : x ∈ (ofBody tree).bodies) (hanging : child ∈ x.children) :
    child.value.parent = x.value.id := by
  have ranked : ∀ y ∈ ((ofBody tree).root.map rank).subtrees, ∀ c ∈ y.children,
      c.value.2 = y.value.1 := by
    rw [ranks_ofBody, Rose.subtrees_map]
    intro y inside c below
    obtain ⟨x, member, rfl⟩ := List.mem_map.mp inside
    rw [Rose.children_map] at below
    obtain ⟨child, hanging, rfl⟩ := List.mem_map.mp below
    rw [Rose.value_map, Rose.value_map]
    exact Body.parents_number tree none 0 x member child hanging
  rw [Rose.subtrees_map] at ranked
  rw [bodies, Body.bodies_eq] at member
  have found := ranked _ (List.mem_map_of_mem member) (child.map rank)
    (by rw [Rose.children_map]; exact List.mem_map_of_mem hanging)
  rwa [Rose.value_map, Rose.value_map] at found

theorem parent_root (tree : Body) : (ofBody tree).root.value.parent = none := by
  have ranks := congrArg (fun ranked => ranked.value.2) (ranks_ofBody tree)
  simp only [Rose.value_map, rank] at ranks
  rw [ranks, Body.parent_number]

/-- A body stands at the position of its id. -/
theorem get?_id {body : Body} (member : body ∈ (ofBody tree).bodies) :
    body.value.id.bind (ofBody tree).get? = some body := by
  obtain ⟨i, inside, rfl⟩ := List.mem_iff_getElem.mp member
  have id : (ofBody tree).bodies[i].value.id = some i := by
    have ids := congrArg (·[i]?) (ids_ofBody tree)
    simp only [List.getElem?_map, List.getElem?_eq_getElem inside, Option.map_some] at ids
    have bound : i < tree.size := by
      have length := congrArg List.length (ids_ofBody tree)
      simp only [List.length_map, List.length_range] at length
      omega
    rw [List.getElem?_range bound, Option.map_some] at ids
    exact Option.some.inj ids
  rw [id, Option.bind_some, get?, List.getElem?_eq_getElem inside]

/-- A child finds the body around it as its parent, and the root finds none. -/
theorem parentOf?_child {x child : Body} (member : x ∈ (ofBody tree).bodies)
    (hanging : child ∈ x.children) : (ofBody tree).parentOf? child = some x := by
  rw [parentOf?, Body.link, parents_ofBody member hanging, get?_id member]

theorem parentOf?_root (tree : Body) : (ofBody tree).parentOf? (ofBody tree).root = none := by
  rw [parentOf?, Body.link, parent_root, Option.bind_none]

theorem exists_parentOf? {body : Body} (member : body ∈ (ofBody tree).bodies)
    (other : body ≠ (ofBody tree).root) :
    ∃ parent ∈ (ofBody tree).bodies, body ∈ parent.children ∧
      (ofBody tree).parentOf? body = some parent := by
  rw [bodies, Body.bodies_eq] at member
  rcases Rose.exists_parent member with same | ⟨parent, inside, hanging⟩
  · exact absurd same other
  · rw [← Body.bodies_eq] at inside
    exact ⟨parent, inside, hanging, parentOf?_child inside hanging⟩

/-- The edge to a body from its parent, by name. -/
def edge? (t : Linkage) (body : Body) : Option (String × String) :=
  (t.parentOf? body).map fun parent => (parent.name, body.name)

theorem edges_below {x : Body} (member : x ∈ (ofBody tree).bodies) :
    (Rose.subtreesAll x.children).filterMap (ofBody tree).edge? = x.branches := by
  induction x using Rose.induction with
  | step link children ih =>
    rw [Rose.subtreesAll_eq, List.filterMap_flatMap, Body.branches_eq]
    refine congrArg List.flatten (List.map_congr_left fun child hanging => ?_)
    have inside : child ∈ (ofBody tree).bodies := by
      rw [bodies, Body.bodies_eq] at member ⊢
      exact Rose.subtrees_trans (Rose.child_mem_subtrees hanging) member
    have here : (ofBody tree).edge? child = some (Body.name (.node link children), Body.name child) := by
      rw [edge?, parentOf?_child member hanging, Option.map_some]
    rw [Rose.subtrees_eq, List.filterMap_cons, here, ih child hanging inside]

/-- The edges of a finished tree, read off its bodies, are those of the tree it was made of. -/
theorem edges_ofBody (tree : Body) :
    (ofBody tree).bodies.filterMap (ofBody tree).edge? = tree.branches := by
  have top : (ofBody tree).root ∈ (ofBody tree).bodies := by
    rw [bodies, Body.bodies_eq]
    exact Rose.self_mem_subtrees _
  have none : (ofBody tree).edge? (ofBody tree).root = none := by
    rw [edge?, parentOf?_root, Option.map_none]
  rw [← Body.branches_bare, ← bare_ofBody, Body.branches_bare, ← edges_below top]
  conv => lhs; rw [bodies, Body.bodies_eq, Rose.subtrees_eq, List.filterMap_cons, none]

/-- Every body but the root hangs on an edge of the tree. -/
theorem exists_branch {body : Body} (member : body ∈ (ofBody tree).bodies)
    (other : body ≠ (ofBody tree).root) :
    ∃ parent, (ofBody tree).parentOf? body = some parent ∧ (parent.name, body.name) ∈ tree.branches := by
  obtain ⟨parent, _, _, found⟩ := exists_parentOf? member other
  have edge : (ofBody tree).edge? body = some (parent.name, body.name) := by
    rw [edge?, found, Option.map_some]
  refine ⟨parent, found, ?_⟩
  rw [← edges_ofBody]
  exact List.mem_filterMap.mpr ⟨body, member, edge⟩

end Linkage

end Articulation
