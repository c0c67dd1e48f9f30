import Articulation.Rose.Basic
/-! The nodes of a tree in breadth-first order, and the equation that this order alone satisfies: the
root, followed by the children of all nodes in the order of the nodes. -/
namespace Articulation.Rose

variable {α : Type}

/-- The subtrees whose roots lie at a depth, from left to right. -/
def atDepth (tree : Rose α) : Nat → List (Rose α)
  | 0 => [tree]
  | depth + 1 => (tree.atDepth depth).flatMap children

/-- Every subtree, those of lesser depth first. -/
def breadthFirst (tree : Rose α) : List (Rose α) := (List.range tree.size).flatMap tree.atDepth

theorem size_pos (tree : Rose α) : 0 < tree.size := by
  rw [size_eq]
  omega

/-- One level down, every tree has lost its root. -/
theorem sizeAll_children (trees : List (Rose α)) :
    sizeAll (trees.flatMap children) + trees.length = sizeAll trees := by
  induction trees with
  | nil => rfl
  | cons tree trees ih =>
    rw [List.flatMap_cons, sizeAll_append, sizeAll, size_eq, List.length_cons]
    omega

theorem eq_nil_of_sizeAll {trees : List (Rose α)} (none : sizeAll trees = 0) : trees = [] := by
  cases trees with
  | nil => rfl
  | cons tree trees =>
    have positive := tree.size_pos
    rw [sizeAll] at none
    omega

theorem sizeAll_atDepth (tree : Rose α) (depth : Nat) :
    sizeAll (tree.atDepth depth) ≤ tree.size - depth := by
  induction depth with
  | zero => simp [atDepth, sizeAll]
  | succ depth ih =>
    have down := sizeAll_children (tree.atDepth depth)
    rw [atDepth]
    cases level : tree.atDepth depth with
    | nil => simp [sizeAll]
    | cons first rest =>
      rw [level, List.length_cons] at down
      rw [level] at ih
      omega

/-- Only the breadth-first order is the root followed by the children of all its own nodes. -/
theorem eq_breadthFirst {tree : Rose α} {nodes : List (Rose α)}
    (closed : nodes = tree :: nodes.flatMap children) : nodes = tree.breadthFirst := by
  have upTo : ∀ depth, ∃ rest, nodes = (List.range depth).flatMap tree.atDepth ++ rest ∧
      rest = tree.atDepth depth ++ rest.flatMap children := by
    intro depth
    induction depth with
    | zero => exact ⟨nodes, rfl, closed⟩
    | succ depth ih =>
      obtain ⟨rest, whole, deeper⟩ := ih
      refine ⟨rest.flatMap children, ?_, ?_⟩
      · rw [List.range_succ, List.flatMap_append, List.append_assoc, List.flatMap_singleton, ← deeper]
        exact whole
      · conv => lhs; rw [deeper, List.flatMap_append]
        rfl
  obtain ⟨rest, whole, deeper⟩ := upTo tree.size
  have bottom : tree.atDepth tree.size = [] := by
    apply eq_nil_of_sizeAll
    have bound := tree.sizeAll_atDepth tree.size
    omega
  have finished : rest = [] := by
    rw [bottom, List.nil_append] at deeper
    have down := sizeAll_children rest
    rw [← deeper] at down
    exact List.eq_nil_of_length_eq_zero (by omega)
  rw [whole, finished, List.append_nil]
  rfl

end Articulation.Rose
