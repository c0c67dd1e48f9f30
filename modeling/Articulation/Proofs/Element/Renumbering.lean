import Articulation.Proofs.Element.Comparison
import Articulation.Proofs.Rose.Matching
import Articulation.Proofs.Rose.Positions
/-! Trees that hold one element under different numbers. If the second has its nodes in pre-order, they are
those of the first in pre-order, and the numbers in them are places there. -/
namespace Articulation.ElementTree

variable {t u : ElementTree} {ids : List Nat} {id : Nat}

/-- The nodes come in pre-order, beginning with the root. -/
def InPreorder (t : ElementTree) : Prop := 0 :: t.descendants 0 = List.range t.size

/-- The nodes of a tree are those of another that have the given numbers, one after another. Each number in
them stands for the one at its place, and the first node is the root. -/
structure Renumbers (t : ElementTree) (ids : List Nat) (u : ElementTree) : Prop where
  size : u.size = ids.length
  tag : ∀ {i id}, ids[i]? = some id → u.tag i = t.tag id
  below : ∀ {i id}, ids[i]? = some id →
    List.Forall₂ (fun place child => ids[place]? = some child) (u.below i) (t.below id)
  above : ∀ {i id}, ids[i]? = some id → 0 < i → ∃ place parent,
    u.above i = some place ∧ t.above id = some parent ∧ ids[place]? = some parent
  root : u.above 0 = none

theorem IsArena.eq_numbers (arena : t.IsArena) {x : Rose Nat} (member : x ∈ (t.numbers id).subtrees) :
    x = t.numbers x.value := by
  induction id using arena.induction with
  | step id ih =>
    rcases Rose.mem_subtrees.mp member with rfl | ⟨child, hanging, inside⟩
    · exact congrArg t.numbers (value_shape t t.size id).symm
    · rw [arena.numbers_eq, Rose.children_node] at hanging
      obtain ⟨c, listed, rfl⟩ := List.mem_map.mp hanging
      exact ih c listed inside

/-- What hangs in the tree of the numbers is what the numbers list. -/
theorem IsArena.below_eq (arena : t.IsArena) {x : Rose Nat} (member : x ∈ (t.numbers id).subtrees) :
    t.below x.value = x.children.map Rose.value := by
  have whole := arena.eq_numbers member
  rw [arena.numbers_eq] at whole
  conv => rhs; rw [whole]
  rw [Rose.children_node, List.map_map]
  refine (List.map_id _).symm.trans (List.map_congr_left fun c _ => ?_)
  exact (value_shape t t.size c).symm

/-- Two trees of numbers for one element, one of them in pre-order, pair each number with its place. -/
theorem exists_places (same : t.element id = u.root) (inOrder : u.InPreorder) :
    ∃ pairs : Rose (Nat × Nat), pairs.map Prod.fst = t.numbers id ∧ pairs.map Prod.snd = u.numbers 0 ∧
      ∀ i c, (c, i) ∈ pairs.preorder ↔ (id :: t.descendants id)[i]? = some c := by
  obtain ⟨pairs, first, second⟩ := (Rose.Matches.of_map_eq same).exists_pairs
  refine ⟨pairs, first, second, fun i c => ?_⟩
  have numbers : pairs.preorder.map Prod.fst = id :: t.descendants id := by
    rw [← Rose.preorder_map, first, preorder_numbers]
  have places : pairs.preorder.map Prod.snd = List.range u.size := by
    rw [← Rose.preorder_map, second, preorder_numbers]
    exact inOrder
  rw [← numbers, List.getElem?_map, Option.map_eq_some_iff]
  have place {k : Nat} {pair : Nat × Nat} (found : pairs.preorder[k]? = some pair) : pair.2 = k := by
    have there := congrArg (·[k]?) places
    simp only [List.getElem?_map, found, Option.map_some] at there
    exact eq_of_getElem?_range there.symm
  constructor
  · intro member
    obtain ⟨k, found⟩ := List.mem_iff_getElem?.mp member
    obtain rfl := place found
    exact ⟨_, found, rfl⟩
  · rintro ⟨pair, found, rfl⟩
    rw [← place found]
    exact List.mem_of_getElem? found

/-- What two trees list below the numbers of a pair are pairs again. -/
theorem below_pairs (source : t.IsArena) (arena : u.IsArena) {pairs : Rose (Nat × Nat)}
    (first : pairs.map Prod.fst = t.numbers id) (second : pairs.map Prod.snd = u.numbers 0)
    {pair : Nat × Nat} (member : pair ∈ pairs.preorder) :
    List.Forall₂ (fun place child => (child, place) ∈ pairs.preorder) (u.below pair.2)
      (t.below pair.1) := by
  obtain ⟨x, inside, rfl⟩ := List.mem_map.mp member
  have before : x.map Prod.fst ∈ (t.numbers id).subtrees := by
    rw [← first, Rose.subtrees_map]
    exact List.mem_map_of_mem inside
  have after : x.map Prod.snd ∈ (u.numbers 0).subtrees := by
    rw [← second, Rose.subtrees_map]
    exact List.mem_map_of_mem inside
  have old := source.below_eq before
  have new := arena.below_eq after
  rw [Rose.value_map, Rose.children_map, List.map_map] at old new
  rw [old, new, List.forall₂_map_left_iff, List.forall₂_map_right_iff, List.forall₂_same]
  intro child hanging
  rw [Function.comp_apply, Function.comp_apply, Rose.value_map, Rose.value_map]
  exact List.mem_map_of_mem (Rose.subtrees_trans (Rose.child_mem_subtrees hanging) inside)

/-- A tree in pre-order that holds an element of another has renumbered the nodes of that element. -/
theorem renumbers_of_element (source : t.IsArena) (arena : u.IsArena) (same : t.element id = u.root)
    (inOrder : u.InPreorder) : t.Renumbers (id :: t.descendants id) u := by
  obtain ⟨pairs, first, second, places⟩ := exists_places same inOrder
  have sized : u.size = (id :: t.descendants id).length := by
    have lengths := congrArg List.length inOrder
    rw [List.length_range, ← preorder_numbers, ← second, Rose.length_preorder, Rose.size_map] at lengths
    rw [← lengths, ← preorder_numbers, ← first, Rose.length_preorder, Rose.size_map]
  have tags : ∀ pair ∈ pairs.preorder, u.tag pair.2 = t.tag pair.1 := by
    have values := congrArg Rose.preorder same
    rw [element, ← first, root, element, ← second, Rose.map_map, Rose.map_map, Rose.preorder_map,
      Rose.preorder_map] at values
    exact fun pair member => (List.map_inj_left.mp values pair member).symm
  have below {i c : Nat} (found : (id :: t.descendants id)[i]? = some c) :
      List.Forall₂ (fun place child => (id :: t.descendants id)[place]? = some child)
        (u.below i) (t.below c) :=
    (below_pairs source arena first second ((places i c).mpr found)).imp fun place child member =>
      (places place child).mp member
  refine ⟨sized, fun found => tags _ ((places _ _).mpr found), below, fun {i c} found positive => ?_,
    (arena.root arena.rooted).mpr rfl⟩
  -- the place above is an earlier one, and lists the node as the number there does
  have inside : i < u.size := sized ▸ (List.getElem?_eq_some_iff.mp found).1
  obtain ⟨place, within⟩ := Option.ne_none_iff_exists'.mp fun none =>
    Nat.ne_of_gt positive ((arena.root inside).mp none)
  have earlier := arena.before within
  obtain ⟨parent, there⟩ : ∃ parent, (id :: t.descendants id)[place]? = some parent :=
    ⟨_, List.getElem?_eq_getElem (by omega)⟩
  obtain ⟨child, listed, here⟩ := exists_of_forall₂ (below there) (arena.listed within)
  obtain rfl := Option.some.inj (here.symm.trans found)
  exact ⟨place, parent, within, source.only listed, there⟩

/-- Where every number stands at its own place nothing is renumbered. -/
theorem Renumbers.eq (arena : t.IsArena) (schema : u.schema = t.schema)
    (renumbers : t.Renumbers (List.range t.size) u) : u = t := by
  have sized : u.size = t.size := by rw [renumbers.size, List.length_range]
  suffices nodes : u.nodes = t.nodes by
    cases t
    cases u
    rw [mk.injEq]
    exact ⟨schema, nodes⟩
  refine Array.ext_getElem? fun i => ?_
  by_cases inside : i < t.size
  · have here : (List.range t.size)[i]? = some i := List.getElem?_range inside
    have below : u.below i = t.below i := by
      have listed := (renumbers.below here).imp fun _ _ found => (eq_of_getElem?_range found).symm
      rwa [List.forall₂_eq_eq_eq] at listed
    have above : u.above i = t.above i := by
      rcases Nat.eq_zero_or_pos i with rfl | positive
      · rw [renumbers.root, (arena.root inside).mpr rfl]
      · obtain ⟨_, _, new, old, found⟩ := renumbers.above here positive
        rw [new, old, eq_of_getElem?_range found]
    rw [node_eq inside, node_eq (sized ▸ inside), renumbers.tag here, below, above]
  · have past : u.size ≤ i := sized ▸ Nat.not_lt.mp inside
    rw [Array.getElem?_eq_none (Nat.not_lt.mp inside), Array.getElem?_eq_none past]

theorem InPreorder.of_agrees (inOrder : u.InPreorder) (agree : u.agrees t = true) : t.InPreorder := by
  rw [InPreorder, ← preorder_numbers, ← numbers_of_agrees agree, preorder_numbers, inOrder,
    size_of_agrees agree]

end Articulation.ElementTree
