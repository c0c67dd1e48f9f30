import Articulation.Proofs.Element.Renumbering
import Articulation.Proofs.Markup.Soundness
/-! Copies. A copy has its nodes in pre-order, whatever the order in which those of its source were added,
and holds the same element; a compilation reads nothing else of a tree. -/
namespace Articulation

open ElementTree (Made)

variable {kind : SchemaKind} {t : ElementTree}

/-- A copy of the root of a tree is the tree with its nodes in pre-order. -/
theorem ElementTree.Made.deepCopy_root (made : Made kind t) :
    t.deepCopy ⟨0, made.conforms.rooted⟩ = .ok (.ofElement t.schema t.root) :=
  deepCopy_of_conforms made.conforms ⟨0, made.conforms.rooted⟩

/-- Every tree that a reader, checked writes and copies can make has a copy, and the copy compiles to the
same model or fails with the same error, whatever the settings and the directory of its assets. -/
theorem loadTree_deepCopy (made : Made kind t) :
    ∃ u, t.deepCopy ⟨0, made.conforms.rooted⟩ = .ok u ∧ Made kind u ∧ u.root = t.root ∧ ∀ settings,
      loadTree u settings = loadTree t settings ∧
        ∀ directory, loadTreeIn u directory settings = loadTreeIn t directory settings := by
  have copied := made.deepCopy_root
  have compiled (surroundings : Surroundings) :
      compileTree surroundings (.ofElement t.schema t.root) = compileTree surroundings t := by
    rw [compileTree, compileTree, ElementTree.root_ofElement]
    rfl
  exact ⟨_, copied, made.deepCopy copied, ElementTree.root_ofElement _ _, fun settings =>
    ⟨compiled _, fun directory => compiled _⟩⟩

/-- The copy is another tree, its nodes being in another order, but compiles alike. -/
theorem loadTree_deepCopy_crossed :
    ∃ u, ElementTree.crossed.deepCopy ⟨0, by decide⟩ = .ok u ∧ u ≠ ElementTree.crossed ∧
      loadTree u .standard = loadTree ElementTree.crossed .standard := by
  obtain ⟨u, copied, _, _, compiled⟩ := loadTree_deepCopy ElementTree.made_crossed
  refine ⟨u, copied, fun same => ?_, (compiled .standard).1⟩
  have different : ElementTree.crossed.deepCopy ⟨0, by decide⟩ ≠ .ok ElementTree.crossed := by decide +kernel
  exact different (same ▸ copied)

/-! ### Numbers -/

namespace ElementTree

theorem inPreorder_ofElement (schema : Schema) (e : Element) : (ofElement schema e).InPreorder :=
  descendants_ofElement schema e

/-- What a copy is: the nodes of the element copied, in pre-order and renumbered, and again a copy of
itself. -/
structure IsCopy (t : ElementTree) (id : Nat) (u : ElementTree) : Prop where
  schema : u.schema = t.schema
  renumbers : t.Renumbers (id :: t.descendants id) u
  inOrder : u.InPreorder
  again : ∃ rooted, u.deepCopy ⟨0, rooted⟩ = .ok u

theorem Made.isCopy (made : Made kind t) (id : Fin t.size) {u : ElementTree}
    (copied : t.deepCopy id = .ok u) : t.IsCopy id u := by
  have again := made.deepCopy copied
  rw [deepCopy_of_conforms made.conforms] at copied
  cases copied
  have held := root_ofElement t.schema (t.element id)
  refine ⟨rfl, ?_, inPreorder_ofElement _ _, again.conforms.rooted, ?_⟩
  · exact renumbers_of_element made.isArena again.isArena held.symm (inPreorder_ofElement _ _)
  · rw [again.deepCopy_root, held]
    rfl

/-- Every element of a tree that a reader, checked writes and copies can make has a copy, which renumbers
it into pre-order. A copy of the root agrees with a tree without not-a-number exactly if that was in
pre-order, as is every tree that is read. -/
theorem Made.deepCopy_renumbers (made : Made kind t) :
    (∀ id, ∃ u, t.deepCopy id = .ok u ∧ t.IsCopy id u) ∧
      (∀ rooted u, t.deepCopy ⟨0, rooted⟩ = .ok u → t.NaNFree → (u.agrees t = true ↔ t.InPreorder)) ∧
      ∀ text u, ElementTree.read kind.schema text = .ok u → u.InPreorder := by
  refine ⟨fun id => ?_, fun rooted u copied numbers => ?_, fun text u read => ?_⟩
  · have copied := deepCopy_of_conforms made.conforms id
    exact ⟨_, copied, made.isCopy id copied⟩
  · have copy := made.isCopy ⟨0, rooted⟩ copied
    constructor
    · exact copy.inOrder.of_agrees
    · intro inOrder
      have renumbers := copy.renumbers
      rw [show 0 :: t.descendants 0 = List.range t.size from inOrder] at renumbers
      rw [renumbers.eq made.isArena copy.schema]
      exact agrees_self numbers
  · rw [read_eq] at read
    obtain ⟨e, _, rfl⟩ := map_eq_ok.mp read
    exact inPreorder_ofElement _ e

/-- The numbers of the copy follow the order of the elements, so the copy does not agree with its
source. -/
theorem Made.deepCopy_renumbers_crossed :
    ∃ u, crossed.deepCopy ⟨0, by decide⟩ = .ok u ∧ crossed.Renumbers [0, 1, 3, 5, 2, 4] u ∧
      u.agrees crossed = false := by
  obtain ⟨copies, compared, _⟩ := made_crossed.deepCopy_renumbers
  obtain ⟨u, copied, copy⟩ := copies ⟨0, by decide⟩
  have order : crossed.descendants 0 = [1, 3, 5, 2, 4] := by decide +kernel
  have numbers : crossed.NaNFree := by
    unfold NaNFree
    decide +kernel
  have apart : ¬ crossed.InPreorder := by
    rw [InPreorder, order]
    decide +kernel
  refine ⟨u, copied, order ▸ copy.renumbers, ?_⟩
  exact Bool.eq_false_iff.mpr fun agree => apart ((compared _ u copied numbers).mp agree)

end ElementTree

end Articulation
