import Articulation.Rose.Basic
import Mathlib.Data.List.Forall2
import Mathlib.Data.List.Perm.Basic
/-! Trees that are equal up to the order of the children of every node, and the proof that this is an
equivalence. -/
namespace Articulation.Rose

variable {α : Type}

/-- The children, each reordered, are those of the other tree in some order. -/
inductive Reordered : Rose α → Rose α → Prop where
  | node {value children sorted others} : List.Forall₂ Reordered children sorted →
      sorted.Perm others → Reordered (.node value children) (.node value others)

namespace Reordered

theorem refl (tree : Rose α) : Reordered tree tree := by
  induction tree using Rose.induction with
  | step value children ih => exact .node (List.forall₂_same.mpr ih) (.refl _)

theorem symm {tree other : Rose α} (same : Reordered tree other) : Reordered other tree := by
  induction tree using Rose.induction generalizing other with
  | step value children ih =>
    cases same with
    | @node _ _ sorted others below perm =>
      have back : List.Forall₂ Reordered sorted children := by
        have turn := List.forall₂_and_left children sorted |>.mpr ⟨ih, below⟩
        exact (turn.imp fun _ _ pair => pair.1 pair.2).flip
      obtain ⟨chosen, reordered, moved⟩ := List.perm_comp_forall₂ perm.symm back
      exact .node reordered moved

theorem trans {tree middle other : Rose α} (first : Reordered tree middle)
    (second : Reordered middle other) : Reordered tree other := by
  induction tree using Rose.induction generalizing middle other with
  | step value children ih =>
    cases first with
    | @node _ _ sorted _ below perm =>
      cases second with
      | node further moved =>
        obtain ⟨chosen, between, shuffled⟩ := List.perm_comp_forall₂ perm further
        have joined : List.Forall₂ Reordered children chosen := by
          clear perm further moved shuffled
          induction below generalizing chosen with
          | nil =>
            cases between
            exact .nil
          | cons first _ rest =>
            obtain ⟨here, later⟩ := List.forall_mem_cons.mp ih
            cases between with
            | cons second between => exact .cons (here first second) (rest later _ between)
        exact .node joined (shuffled.trans moved)

end Reordered

end Articulation.Rose
