import Articulation.Rose.Basic
/-! Positions in pre-order. The subtrees of a node follow each other there, behind the node itself, and a
change of the values moves no node. -/
namespace Articulation.Rose

variable {α β γ : Type} {tree x child : Rose α}

theorem map_map (f : α → β) (g : β → γ) (tree : Rose α) : (tree.map f).map g = tree.map (g ∘ f) := by
  induction tree using Rose.induction with
  | step value children ih =>
    have below : (children.map (map f)).map (map g) = children.map (map (g ∘ f)) := by
      rw [List.map_map]
      exact List.map_congr_left ih
    rw [map, map, map, mapAll_eq, mapAll_eq, mapAll_eq, below]
    rfl

theorem length_subtreesAll {trees : List (Rose α)}
    (each : ∀ tree ∈ trees, tree.subtrees.length = tree.size) :
    (subtreesAll trees).length = sizeAll trees := by
  induction trees with
  | nil => rfl
  | cons tree trees ih =>
    obtain ⟨first, rest⟩ := List.forall_mem_cons.mp each
    rw [subtreesAll, List.length_append, first, ih rest, sizeAll]

theorem length_subtrees (tree : Rose α) : tree.subtrees.length = tree.size := by
  induction tree using Rose.induction with
  | step value children ih =>
    rw [subtrees_eq, List.length_cons, children_node, length_subtreesAll ih, size, Nat.add_comm]

theorem length_preorder (tree : Rose α) : tree.preorder.length = tree.size := by
  rw [preorder, List.length_map, length_subtrees]

theorem preorder_map (f : α → β) (tree : Rose α) : (tree.map f).preorder = tree.preorder.map f := by
  rw [preorder, subtrees_map, List.map_map, preorder, List.map_map]
  exact List.map_congr_left fun tree _ => value_map f tree

theorem size_map (f : α → β) (tree : Rose α) : (tree.map f).size = tree.size := by
  rw [← length_preorder, preorder_map, List.length_map, length_preorder]

theorem subtrees_sublist (member : x ∈ tree.subtrees) : x.subtrees.Sublist tree.subtrees := by
  induction tree using Rose.induction with
  | step value children ih =>
    rcases mem_subtrees.mp member with rfl | ⟨child, below, inside⟩
    · exact .refl _
    · have within : child.subtrees.Sublist (subtreesAll children) := by
        rw [subtreesAll_eq]
        exact List.sublist_flatten_of_mem (List.mem_map_of_mem below)
      rw [subtrees_eq (node value children)]
      exact ((ih child below inside).trans within).cons _

/-- A child comes somewhere behind the node that it hangs below. -/
theorem pair_sublist (member : x ∈ tree.subtrees) (hanging : child ∈ x.children) :
    [x, child].Sublist tree.subtrees := by
  have behind : child ∈ subtreesAll x.children := by
    rw [subtreesAll_eq]
    exact List.mem_flatMap.mpr ⟨child, hanging, self_mem_subtrees child⟩
  have below := (List.singleton_sublist.mpr behind).cons_cons x
  rw [← subtrees_eq] at below
  exact below.trans (subtrees_sublist member)

end Articulation.Rose
