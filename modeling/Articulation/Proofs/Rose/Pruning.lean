import Articulation.Rose.Basic
import Articulation.Proofs.Traversal
/-! Trees from which whole branches are cut: a child that may not stand below its parent goes with all
below it. What remains are the nodes on whose way to the root every child may stand below its parent. -/
namespace Articulation.Rose

variable {α β : Type} (keep : α → α → Bool)

mutual
/-- The tree without the children, at any depth, that may not stand below their parents. -/
def prune : Rose α → Rose α
  | .node value children => .node value (pruneAll value children)

def pruneAll (parent : α) : List (Rose α) → List (Rose α)
  | [] => []
  | tree :: trees =>
    if keep parent tree.value then tree.prune :: pruneAll parent trees else pruneAll parent trees
end

theorem pruneAll_eq (parent : α) (trees : List (Rose α)) :
    pruneAll keep parent trees = (trees.filter fun tree => keep parent tree.value).map (prune keep) := by
  induction trees with
  | nil => rfl
  | cons tree trees ih =>
    rw [pruneAll, List.filter_cons, ih]
    split <;> rfl

@[simp] theorem value_prune (tree : Rose α) : (tree.prune keep).value = tree.value := by
  cases tree
  rfl

theorem children_prune (tree : Rose α) :
    (tree.prune keep).children =
      (tree.children.filter fun child => keep tree.value child.value).map (prune keep) := by
  cases tree
  exact pruneAll_eq keep _ _

/-! ### The way to the root -/

mutual
/-- For every node in pre-order its value and, behind it, those of the nodes it stands in. -/
def trails (above : List α) : Rose α → List (List α)
  | .node value children => (value :: above) :: trailsAll (value :: above) children

def trailsAll (above : List α) : List (Rose α) → List (List α)
  | [] => []
  | tree :: trees => tree.trails above ++ trailsAll above trees
end

theorem trails_eq (above : List α) (tree : Rose α) :
    tree.trails above =
      (tree.value :: above) :: tree.children.flatMap (trails (tree.value :: above)) := by
  have all (above : List α) (trees : List (Rose α)) : trailsAll above trees = trees.flatMap (trails above) := by
    induction trees with
    | nil => rfl
    | cons tree trees ih => rw [trailsAll, ih, List.flatMap_cons]
  cases tree
  rw [trails, all]
  rfl

theorem trails_map (f : α → β) (tree : Rose α) (above : List α) :
    (tree.map f).trails (above.map f) = (tree.trails above).map (List.map f) := by
  induction tree using Rose.induction generalizing above with
  | step value children ih =>
    rw [trails_eq, trails_eq, List.map_cons, children_map, List.flatMap_map, List.map_flatMap, value_map]
    exact congrArg (_ :: List.flatten ·)
      (List.map_congr_left fun child member => ih child member (value :: above))

/-- Whether each value may stand below the next one. -/
def linked : List α → Bool
  | lower :: upper :: above => keep upper lower && linked (upper :: above)
  | _ => true

/-- Below a node that is cut off everything is cut off. -/
theorem not_linked {tree : Rose α} {above : List α} (broken : linked keep (tree.value :: above) = false) :
    (tree.trails above).filter (linked keep) = [] := by
  induction tree using Rose.induction generalizing above with
  | step value children ih =>
    rw [trails_eq, List.filter_cons_of_neg (by simpa using broken), List.filter_flatMap,
      List.flatMap_eq_nil_iff]
    intro child member
    refine ih child member ?_
    rw [linked, broken, Bool.and_false]

/-- A pruned tree has the nodes, and above them the nodes, that are linked to the root. -/
theorem trails_prune {tree : Rose α} {above : List α} (whole : linked keep (tree.value :: above) = true) :
    (tree.prune keep).trails above = (tree.trails above).filter (linked keep) := by
  induction tree using Rose.induction generalizing above with
  | step value children ih =>
    have inside (child : Rose α) (member : child ∈ children) (kept : keep value child.value = true) :
        (child.prune keep).trails (value :: above) =
          (child.trails (value :: above)).filter (linked keep) := by
      refine ih child member ?_
      rw [linked, kept, Bool.true_and]
      exact whole
    have outside (child : Rose α) (cut : keep value child.value = false) :
        (child.trails (value :: above)).filter (linked keep) = [] := by
      refine not_linked keep ?_
      rw [linked, cut, Bool.false_and]
    have below : (children.filter fun child => keep value child.value).flatMap
          (fun child => (child.prune keep).trails (value :: above)) =
        children.flatMap fun child => (child.trails (value :: above)).filter (linked keep) := by
      rw [← flatMap_filter fun child _ cut => outside child cut]
      refine congrArg List.flatten (List.map_congr_left fun child member => ?_)
      obtain ⟨member, kept⟩ := List.mem_filter.mp member
      exact inside child member kept
    rw [trails_eq, trails_eq, List.filter_cons_of_pos (by simpa using whole), List.filter_flatMap,
      value_prune, children_prune, List.flatMap_map]
    exact congrArg (_ :: ·) below

end Articulation.Rose
