import Articulation.Proofs.Assembly.Conservation
import Articulation.Proofs.Rose.Breadth
import Mathlib.Data.List.Forall2
/-! The tree that an assembly returns. It holds the given bodies and no others, below every body hang
exactly the children that connections lead to from it, in the order of their declaration, and the
exclusions grow by its edges in breadth-first order. -/
namespace Articulation

/-- The edges of a tree in breadth-first order, by the names of parent and child. -/
def Body.edges (root : Body) : List (String × String) :=
  (Rose.breadthFirst root).flatMap fun body : Body =>
    body.children.map fun child : Body => (body.name, child.name)

namespace Assembly

variable {bodies : List Body} {connections : List Connection} {root : Body} {p : Plan}

/-- A given body as the child of a connection: at the pose of the connection, with its joint, at the
frame of the body, behind the joints the body has, and otherwise as given. -/
def Carries (bodies : List Body) (c : Connection) (child : Body) : Prop :=
  ∃ body ∈ bodies, body.name = c.child ∧
    child.link = { body.link with
      pose := c.pose
      joints := body.link.joints ++ [{ c.joint with pose := .identity }] }

theorem Carries.name {c : Connection} {child : Body} (carries : Carries bodies c child) :
    child.name = c.child := by
  obtain ⟨body, _, named, same⟩ := carries
  rw [Body.name, same]
  exact named

/-- The given bodies as connections describe their tree. -/
structure IsTreeOf (bodies : List Body) (connections : List Connection) (root : Body) : Prop where
  distinct : (bodies.map Body.name).Nodup
  known : ∀ c ∈ connections, IsKnown (bodies.map Body.name) c
  single : (connections.map (·.child)).Nodup
  names : (root.bodies.map Body.name).Perm (bodies.map Body.name)
  rooted : ∃ body ∈ bodies, root.link = body.link
  top : ∀ c ∈ connections, c.child ≠ root.name
  hanging : ∀ body ∈ root.bodies, body = root ∨ ∃ c ∈ connections, Carries bodies c body
  below : ∀ body ∈ root.bodies, List.Forall₂ (Carries bodies)
    (connections.filter (·.parent == body.name)) body.children

namespace IsTreeOf

theorem names_below (tree : IsTreeOf bodies connections root) {body : Body}
    (member : body ∈ root.bodies) :
    body.children.map Body.name = (connections.filter (·.parent == body.name)).map (·.child) := by
  have below := tree.below body member
  generalize connections.filter (·.parent == body.name) = order at below
  generalize body.children = children at below
  induction below with
  | nil => rfl
  | cons first _ ih => rw [List.map_cons, List.map_cons, ih, first.name]

/-- Child and parent in the tree are child and parent of a connection. -/
theorem edge_iff (tree : IsTreeOf bodies connections root) (parent child : String) :
    (∃ body ∈ root.bodies, body.name = parent ∧ child ∈ body.children.map Body.name) ↔
      Leads connections parent child := by
  constructor
  · rintro ⟨body, member, rfl, found⟩
    rw [tree.names_below member] at found
    obtain ⟨c, taken, same⟩ := List.mem_map.mp found
    obtain ⟨listed, parent⟩ := List.mem_filter.mp taken
    exact ⟨c, listed, beq_iff_eq.mp parent, same⟩
  · rintro ⟨c, listed, rfl, rfl⟩
    have present := tree.names.mem_iff.mpr (tree.known c listed).1
    obtain ⟨body, member, named⟩ := List.mem_map.mp present
    refine ⟨body, member, named, ?_⟩
    rw [tree.names_below member]
    exact List.mem_map_of_mem (List.mem_filter.mpr ⟨listed, by simp [named]⟩)

/-- The connection of a body is the only one that leads to it. -/
theorem hanging_unique (tree : IsTreeOf bodies connections root) {body : Body}
    (member : body ∈ root.bodies) :
    body = root ∨ ∃ c ∈ connections, Carries bodies c body ∧
      ∀ x ∈ connections, x.child = body.name → x = c := by
  rcases tree.hanging body member with same | ⟨c, listed, carries⟩
  · exact .inl same
  · refine .inr ⟨c, listed, carries, fun x other same => ?_⟩
    exact List.inj_on_of_nodup_map tree.single other listed (same.trans carries.name)

end IsTreeOf

/-! ### Grown trees -/

theorem children_bodyOf (childless : ∀ body ∈ bodies, body.children = []) (name : String) :
    (bodyOf bodies name).children = [] := by
  unfold bodyOf
  cases found : bodies.find? (isNamed name) with
  | none => rfl
  | some body => exact childless body (List.mem_of_find?_eq_some found)

theorem children_grown {met : List String} {order : List Connection} (top : TopDown met order)
    (childless : ∀ body ∈ bodies, body.children = []) (name : String) :
    (grown bodies order name).children =
      (order.filter (·.parent == name)).map (branch bodies order) := by
  rw [grown_eq top, Rose.children_node, children_bodyOf childless, List.append_nil]

/-- Whatever lies below a grown body is a branch. -/
theorem below_grown {met : List String} {order : List Connection} (top : TopDown met order)
    (childless : ∀ body ∈ bodies, body.children = []) (name : String) :
    ∀ body ∈ Rose.subtreesAll (grown bodies order name).children,
      ∃ c ∈ order, body = branch bodies order c := by
  induction name using top.induction with
  | step name ih =>
    intro body member
    rw [Rose.subtreesAll_eq, children_grown top childless] at member
    obtain ⟨child, hanging, inside⟩ := List.mem_flatMap.mp member
    obtain ⟨c, found, rfl⟩ := List.mem_map.mp hanging
    obtain ⟨taken, parent⟩ := List.mem_filter.mp found
    rw [Rose.subtrees_eq, children_branch] at inside
    rcases List.mem_cons.mp inside with same | inside
    · exact ⟨c, taken, same⟩
    · exact ih c taken (beq_iff_eq.mp parent) body inside

theorem mem_bodies_grown {met : List String} {order : List Connection} (top : TopDown met order)
    (childless : ∀ body ∈ bodies, body.children = []) {name : String} {body : Body}
    (member : body ∈ (grown bodies order name).bodies) :
    body = grown bodies order name ∨ ∃ c ∈ order, body = branch bodies order c := by
  rw [Body.bodies_eq, Rose.subtrees_eq] at member
  rcases List.mem_cons.mp member with same | inside
  · exact .inl same
  · exact .inr (below_grown top childless name body inside)

/-- Every body of a grown tree has its branches below it, whether it is one itself or not. -/
theorem children_of_mem {met : List String} {order : List Connection} (top : TopDown met order)
    (childless : ∀ body ∈ bodies, body.children = []) {name : String} {body : Body}
    (member : body ∈ (grown bodies order name).bodies) :
    body.children = (order.filter (·.parent == body.name)).map (branch bodies order) := by
  rcases mem_bodies_grown top childless member with rfl | ⟨c, _, rfl⟩
  · rw [name_grown]
    exact children_grown top childless name
  · rw [children_branch, name_branch]
    exact children_grown top childless c.child

theorem carries_branch {order : List Connection} {c : Connection}
    (known : c.child ∈ bodies.map Body.name) : Carries bodies c (branch bodies order c) := by
  refine ⟨bodyOf bodies c.child, bodyOf_mem known, name_bodyOf bodies c.child, ?_⟩
  rw [branch, link_hung, link_grown]

/-! ### Breadth-first edges -/

section

variable {order : List Indexed} {name : String} (walk : IsWalk connections name order)
  (childless : ∀ body ∈ bodies, body.children = [])

include walk childless

theorem children_of_walk (other : String) : (grown bodies (order.map (·.1)) other).children =
    (connections.filter (·.parent == other)).map (branch bodies (order.map (·.1))) := by
  rw [children_grown walk.topDown childless, walk.filter_parent]

/-- The bodies of a grown tree in breadth-first order follow the walk. -/
theorem breadthFirst_grown : Rose.breadthFirst (grown bodies (order.map (·.1)) name) =
    grown bodies (order.map (·.1)) name ::
      (order.map (·.1)).map (branch bodies (order.map (·.1))) := by
  symm
  apply Rose.eq_breadthFirst
  have below := children_of_walk walk childless
  refine congrArg (_ :: ·) ((congrArg (List.map _) walk.flat_filter).trans ?_)
  simp only [List.flatMap_cons, List.flatMap_map, List.map_append, List.map_flatMap,
    children_branch, below, children]

theorem edges_grown : (grown bodies (order.map (·.1)) name).edges =
    (order.map (·.1)).map fun c => (c.parent, c.child) := by
  have below := children_of_walk walk childless
  have ends : ∀ other, ((connections.filter (·.parent == other)).map fun c => (other, c.child)) =
      (connections.filter (·.parent == other)).map fun c => (c.parent, c.child) := by
    intro other
    apply List.map_congr_left
    intro c found
    rw [beq_iff_eq.mp (List.mem_filter.mp found).2]
  rw [Body.edges, breadthFirst_grown walk childless]
  refine Eq.trans ?_ (congrArg (List.map _) walk.flat_filter).symm
  simp only [List.flatMap_cons, List.flatMap_map, List.map_append, List.map_flatMap, List.map_map,
    children_branch, below, children, name_grown, name_branch, Function.comp_def, ends]

end

/-! ### Assembled trees -/

theorem eq_grown (stands : plan bodies connections = .ok p)
    (built : p.erect bodies connections = .ok root) : root = grown bodies p.sequence p.root := by
  rw [erect_eq stands] at built
  split at built
  · exact (Except.ok.inj built).symm
  · contradiction

theorem erect_isTreeOf (childless : ∀ body ∈ bodies, body.children = [])
    (stands : plan bodies connections = .ok p) (built : p.erect bodies connections = .ok root) :
    IsTreeOf bodies connections root := by
  have ready := planned stands
  have top := ready.walk.topDown
  have whole := eq_grown stands built
  have single : (connections.map (·.child)).Nodup := by
    rw [← children_zipIdx]
    exact (ready.walk.perm.map _).nodup_iff.mp (List.nodup_cons.mp ready.walk.nodup).2
  refine ⟨ready.distinct, ready.known, single, ?_, ?_, ?_, ?_, ?_⟩
  · have kept := erect_allNames stands built
    rw [allNames_childless childless] at kept
    simpa [allNames] using kept
  · exact ⟨_, bodyOf_mem ready.root, by rw [whole, link_grown]⟩
  · intro c listed same
    rw [whole, name_grown] at same
    exact ready.root_not_child (List.mem_map.mpr ⟨c, (ready.walk.mem_iff c).mpr listed, same⟩)
  · intro body member
    rw [whole] at member ⊢
    rcases mem_bodies_grown top childless member with same | ⟨c, taken, rfl⟩
    · exact .inl same
    · have listed := (ready.walk.mem_iff c).mp taken
      exact .inr ⟨c, listed, carries_branch (ready.known c listed).2⟩
  · intro body member
    rw [whole] at member
    rw [children_of_mem top childless member, ready.walk.filter_parent]
    refine List.forall₂_map_right_iff.mpr (List.forall₂_same.mpr fun c found => ?_)
    exact carries_branch (ready.known c (List.mem_of_mem_filter found)).2

theorem pairs_eq_edges (childless : ∀ body ∈ bodies, body.children = [])
    (stands : plan bodies connections = .ok p) (built : p.erect bodies connections = .ok root) :
    p.pairs = root.edges := by
  rw [eq_grown stands built, Plan.sequence, edges_grown (planned stands).walk childless, List.map_map]
  rfl

theorem assembleInto_eq_ok {exclusions pairs : List (String × String)}
    (assembled : assembleInto exclusions bodies connections = (.ok root, pairs)) :
    ∃ p, plan bodies connections = .ok p ∧ p.erect bodies connections = .ok root ∧
      pairs = exclusions ++ p.pairs := by
  unfold assembleInto at assembled
  split at assembled
  · cases assembled
  · rename_i p stands
    obtain ⟨built, grown⟩ := Prod.mk.inj assembled
    exact ⟨p, stands, built, grown.symm⟩

/-- An assembly that succeeds loses and doubles nothing: its tree has the given bodies, each once; child
and parent are those of some connection; the root is as given and every other body is as given but for
the pose and the joint of the one connection that leads to it; siblings stand as their connections are
declared; and one pair for each connection joins the exclusions, in breadth-first order of the tree. -/
theorem assembleInto_tree {exclusions pairs : List (String × String)}
    (childless : ∀ body ∈ bodies, body.children = [])
    (assembled : assembleInto exclusions bodies connections = (.ok root, pairs)) :
    (bodies.map Body.name).Nodup ∧
    (root.bodies.map Body.name).Perm (bodies.map Body.name) ∧
    (∀ parent child,
      (∃ body ∈ root.bodies, body.name = parent ∧ child ∈ body.children.map Body.name) ↔
        Leads connections parent child) ∧
    (∃ body ∈ bodies, root.link = body.link) ∧
    (∀ body ∈ root.bodies, body = root ∨ ∃ c ∈ connections, Carries bodies c body ∧
      ∀ x ∈ connections, x.child = body.name → x = c) ∧
    (∀ body ∈ root.bodies, List.Forall₂ (Carries bodies)
      (connections.filter (·.parent == body.name)) body.children) ∧
    pairs = exclusions ++ root.edges ∧
    root.edges.Perm (connections.map fun c => (c.parent, c.child)) := by
  obtain ⟨p, stands, built, rfl⟩ := assembleInto_eq_ok assembled
  have tree := erect_isTreeOf childless stands built
  have edges := pairs_eq_edges childless stands built
  refine ⟨tree.distinct, tree.names, tree.edge_iff, tree.rooted,
    fun body member => tree.hanging_unique member, tree.below, by rw [edges], ?_⟩
  rw [← edges, Plan.pairs]
  have listed := (planned stands).walk.perm.map fun c => (c.1.parent, c.1.child)
  refine listed.trans (.of_eq ?_)
  conv => rhs; rw [← List.zipIdx_map_fst 0 connections]
  rw [List.map_map]
  rfl

theorem assembleInto_tree_siblings :
    ∃ root, assembleInto [("base", "cover")] (["E", "D", "C", "B", "A"].map Body.ofName)
        [hinge "c" "A" "C", hinge "d" "B" "D", hinge "b" "A" "B", hinge "e" "A" "E"] =
          (.ok root, [("base", "cover"), ("A", "C"), ("A", "B"), ("A", "E"), ("B", "D")]) ∧
      (root.bodies.map Body.name).Perm ["E", "D", "C", "B", "A"] ∧
      [("A", "C"), ("A", "B"), ("A", "E"), ("B", "D")] = root.edges := by
  obtain ⟨root, assembled⟩ := @eq_ok_of_isOk (["E", "D", "C", "B", "A"].map Body.ofName)
    [hinge "c" "A" "C", hinge "d" "B" "D", hinge "b" "A" "B", hinge "e" "A" "E"] [("base", "cover")]
    [("base", "cover"), ("A", "C"), ("A", "B"), ("A", "E"), ("B", "D")] (by decide +kernel)
    (by decide +kernel)
  obtain ⟨_, names, _, _, _, _, pairs, _⟩ := assembleInto_tree (childless_ofName _) assembled
  exact ⟨root, assembled, names, (List.cons.inj pairs).2⟩

end Assembly

end Articulation
