import Articulation.Proofs.Element.Growth
import Mathlib.Data.List.Nodup
/-! How the numbers of a tree fit together. Every node but the root has a parent of a smaller number, and
the numbers below a node are those of the nodes whose parent it is, each once. So the numbers unroll to a
tree, in which every number stands once. -/
namespace Articulation.ElementTree

variable {t : ElementTree} {schema : Schema} {id parent : Nat}

/-- The number of the element that one stands in. -/
def above (t : ElementTree) (id : Nat) : Option Nat := t.nodes[id]?.bind Node.parent

/-- Parents are older than their children, and parents and children name each other. -/
structure IsArena (t : ElementTree) : Prop where
  rooted : 0 < t.size
  root : ∀ {id}, id < t.size → (t.above id = none ↔ id = 0)
  before : ∀ {id parent}, t.above id = some parent → parent < id
  listed : ∀ {id parent}, t.above id = some parent → id ∈ t.below parent
  only : ∀ {id parent}, id ∈ t.below parent → t.above id = some parent
  ascending : ∀ id, (t.below id).Pairwise (· < ·)

theorem lt_of_above (within : t.above id = some parent) : id < t.size := by
  obtain ⟨node, found, _⟩ := Option.bind_eq_some_iff.mp within
  exact (Array.getElem?_eq_some_iff.mp found).1

theorem below_eq_nil (outside : t.size ≤ id) : t.below id = [] := by
  have none : t.nodes[id]? = none := Array.getElem?_eq_none outside
  rw [below, none]
  rfl

theorem shape_outside (outside : t.size ≤ id) (fuel : Nat) : t.shape fuel id = .node id [] := by
  cases fuel with
  | zero => rfl
  | succ fuel => rw [shape_succ, below_eq_nil outside, List.map_nil]

theorem preorder_numbers (t : ElementTree) (id : Nat) :
    (t.numbers id).preorder = id :: t.descendants id := by
  rw [Rose.preorder_eq, numbers, value_shape, descendants, Rose.walk_eq_subtreesAll, Rose.subtreesAll_eq,
    List.map_flatMap]
  rfl

/-! ### Growth -/

theorem above_graft_leaf (t : ElementTree) (parent : Nat) (tag : Tag) (id : Nat) :
    (t.graft (some parent) (.node tag [])).above id = if id = t.size then some parent else t.above id := by
  rw [above, node_graft_leaf, above]
  split
  · rfl
  · split
    · cases t.nodes[id]? <;> rfl
    · rfl

theorem below_graft_leaf (inside : parent < t.size) (tag : Tag) (id : Nat) :
    (t.graft (some parent) (.node tag [])).below id = if id = t.size then [] else
      if parent = id then t.below id ++ [t.size] else t.below id := by
  rw [below, node_graft_leaf, below]
  split
  · rfl
  · split
    · rename_i same
      have inside : id < t.nodes.size := same ▸ inside
      rw [Array.getElem?_eq_getElem inside]
      rfl
    · rfl

namespace IsArena

theorem lt (arena : t.IsArena) (listed : id ∈ t.below parent) : parent < id ∧ id < t.size :=
  ⟨arena.before (arena.only listed), lt_of_above (arena.only listed)⟩

/-- The node hung last is the last among those below its parent, and changes nothing for the others. -/
theorem graft_leaf (arena : t.IsArena) (inside : parent < t.size) (tag : Tag) :
    (t.graft (some parent) (.node tag [])).IsArena := by
  have sized : (t.graft (some parent) (.node tag [])).size = t.size + 1 := size_graft _ _ _
  have above := above_graft_leaf t parent tag
  have below := below_graft_leaf inside tag
  refine ⟨by omega, fun {id} bound => ?_, fun {id other} within => ?_, fun {id other} within => ?_,
    fun {id other} listed => ?_, fun id => ?_⟩
  · rw [above]
    split
    · exact ⟨fun none => (Option.some_ne_none _ none).elim, fun zero => by omega⟩
    · exact arena.root (by omega)
  · rw [above] at within
    split at within
    · cases within
      omega
    · exact arena.before within
  · rw [above] at within
    rw [below]
    split at within
    · rename_i last
      cases within
      rw [if_neg (Nat.ne_of_lt inside), if_pos rfl, last]
      exact List.mem_append_right _ List.mem_cons_self
    · have listed := arena.listed within
      have older := arena.lt listed
      rw [if_neg (by omega)]
      split
      · exact List.mem_append_left _ listed
      · exact listed
  · rw [below] at listed
    rw [above]
    split at listed
    · cases listed
    · split at listed
      · rename_i here
        rcases List.mem_append.mp listed with listed | last
        · rw [if_neg (Nat.ne_of_lt (arena.lt listed).2)]
          exact arena.only listed
        · rw [if_pos (List.mem_singleton.mp last), here]
      · rw [if_neg (Nat.ne_of_lt (arena.lt listed).2)]
        exact arena.only listed
  · rw [below]
    split
    · exact .nil
    · split
      · refine List.pairwise_append.mpr ⟨arena.ascending id, List.pairwise_singleton _ _, ?_⟩
        intro c listed last member
        rw [List.mem_singleton.mp member]
        exact (arena.lt listed).2
      · exact arena.ascending id

theorem graft_all {elements : List Element}
    (each : ∀ e ∈ elements, ∀ {u : ElementTree}, u.IsArena → parent < u.size →
      (u.graft (some parent) e).IsArena) (arena : t.IsArena) (inside : parent < t.size) :
    (elements.foldl (fun u e => u.graft (some parent) e) t).IsArena := by
  induction elements generalizing t with
  | nil => exact arena
  | cons e rest ih =>
    obtain ⟨first, later⟩ := List.forall_mem_cons.mp each
    refine ih later (first arena inside) ?_
    rw [size_graft]
    exact Nat.lt_add_right _ inside

/-- Whole elements are hung node by node. -/
theorem graft (e : Element) (arena : t.IsArena) (inside : parent < t.size) :
    (t.graft (some parent) e).IsArena := by
  induction e using Rose.induction generalizing t parent with
  | step tag children ih =>
    rw [graft_node]
    refine graft_all (fun e member => ih e member) (arena.graft_leaf inside tag) ?_
    rw [size_graft, Rose.size]
    omega

theorem leaf (schema : Schema) (tag : Tag) : (ofElement schema (.node tag [])).IsArena := by
  have nodes : (ofElement schema (.node tag [])).nodes = #[⟨tag, none, []⟩] := rfl
  have above (id : Nat) : (ofElement schema (.node tag [])).above id = none := by
    rw [ElementTree.above, nodes]
    cases id <;> rfl
  have below (id : Nat) : (ofElement schema (.node tag [])).below id = [] := by
    rw [ElementTree.below, nodes]
    cases id <;> rfl
  refine ⟨Nat.zero_lt_one, fun {id} bound => ?_, fun within => ?_, fun within => ?_, fun listed => ?_,
    fun id => ?_⟩
  · exact ⟨fun _ => Nat.lt_one_iff.mp bound, fun _ => above id⟩
  · rw [above] at within
    cases within
  · rw [above] at within
    cases within
  · rw [below] at listed
    cases listed
  · rw [below]
    exact .nil

theorem ofElement (schema : Schema) (e : Element) : (ofElement schema e).IsArena := by
  cases e with
  | node tag children =>
    have root := leaf schema tag
    rw [ofElement_eq_graft] at root
    rw [ofElement_eq_graft, graft_node]
    exact graft_all (fun e _ => graft e) root root.rooted

theorem push (arena : t.IsArena) (inside : parent < t.size) (kind : String) :
    (t.push parent kind).IsArena := by
  rw [push_eq_graft inside]
  exact arena.graft_leaf inside _

theorem insertAttribute (arena : t.IsArena) (id : Nat) (name : String) (value : AttributeValue) :
    (t.insertAttribute id name value).IsArena := by
  have sized := size_insertAttribute t id name value
  have above (other : Nat) : (t.insertAttribute id name value).above other = t.above other := by
    rw [ElementTree.above, ElementTree.insertAttribute, Array.getElem?_modify, ElementTree.above]
    split
    · cases t.nodes[other]? <;> rfl
    · rfl
  have below := below_insertAttribute (t := t) id name value
  constructor
  · exact sized ▸ arena.rooted
  · intro other bound
    rw [above]
    exact arena.root (sized ▸ bound)
  · intro other parent within
    exact arena.before (above other ▸ within)
  · intro other parent within
    rw [below]
    exact arena.listed (above other ▸ within)
  · intro other parent listed
    rw [above]
    exact arena.only (below parent ▸ listed)
  · intro other
    rw [below]
    exact arena.ascending other

/-! ### The tree of the numbers -/

/-- A property holds of every number if it passes to a number from those below it. -/
theorem induction (arena : t.IsArena) {P : Nat → Prop} (step : ∀ id, (∀ c ∈ t.below id, P c) → P id)
    (id : Nat) : P id := by
  -- numbers grow on the way down, and past the last node there is nothing below
  have bounded (n : Nat) : ∀ id, t.size ≤ id + n → P id := by
    induction n with
    | zero =>
      intro id outside
      have none : t.below id = [] := below_eq_nil outside
      refine step id fun c listed => ?_
      rw [none] at listed
      cases listed
    | succ n ih =>
      intro id bound
      refine step id fun c listed => ih c ?_
      have younger := (arena.lt listed).1
      omega
  exact bounded t.size id (Nat.le_add_left _ _)

/-- More depth than there are numbers left adds nothing. -/
theorem shape_eq (arena : t.IsArena) {fuel more : Nat} (enough : t.size ≤ id + fuel)
    (plenty : t.size ≤ id + more) : t.shape fuel id = t.shape more id := by
  induction id using arena.induction generalizing fuel more with
  | step id ih =>
    by_cases outside : t.size ≤ id
    · rw [shape_outside outside, shape_outside outside]
    · obtain ⟨fuel, rfl⟩ := Nat.exists_eq_add_one_of_ne_zero (n := fuel) (by omega)
      obtain ⟨more, rfl⟩ := Nat.exists_eq_add_one_of_ne_zero (n := more) (by omega)
      rw [shape_succ, shape_succ]
      refine congrArg (Rose.node id) (List.map_congr_left fun c listed => ?_)
      have younger := (arena.lt listed).1
      exact ih c listed (by omega) (by omega)

theorem numbers_eq (arena : t.IsArena) (id : Nat) :
    t.numbers id = .node id ((t.below id).map t.numbers) := by
  have deeper : t.numbers id = t.shape (t.size + 1) id := arena.shape_eq (by omega) (by omega)
  rw [deeper, shape_succ]
  rfl

/-- The elements below one come in pre-order. -/
theorem descendants_eq (arena : t.IsArena) (id : Nat) :
    t.descendants id = (t.below id).flatMap fun c => c :: t.descendants c := by
  have whole := (preorder_numbers t id).symm.trans (congrArg Rose.preorder (arena.numbers_eq id))
  rw [Rose.preorder_eq, Rose.children_node, List.flatMap_map] at whole
  rw [(List.cons.inj whole).2]
  exact congrArg (List.flatMap · _) (funext (preorder_numbers t))

theorem mem_descendants (arena : t.IsArena) {c : Nat} :
    c ∈ t.descendants id ↔ ∃ child ∈ t.below id, c = child ∨ c ∈ t.descendants child := by
  rw [arena.descendants_eq, List.mem_flatMap]
  simp only [List.mem_cons]

theorem lt_of_mem_descendants (arena : t.IsArena) {c : Nat} (inside : c ∈ t.descendants id) :
    id < c ∧ c < t.size := by
  induction id using arena.induction with
  | step id ih =>
    obtain ⟨child, listed, rfl | deeper⟩ := arena.mem_descendants.mp inside
    · exact arena.lt listed
    · have younger := (arena.lt listed).1
      have bounds := ih child listed deeper
      omega

/-- What stands below an element stands directly below it or below its own parent there. -/
theorem mem_descendants_iff_above (arena : t.IsArena) {c : Nat} :
    c ∈ t.descendants id ↔ ∃ parent, t.above c = some parent ∧ (parent = id ∨ parent ∈ t.descendants id) := by
  induction id using arena.induction with
  | step id ih =>
    rw [arena.mem_descendants]
    constructor
    · rintro ⟨child, listed, rfl | deeper⟩
      · exact ⟨id, arena.only listed, .inl rfl⟩
      · obtain ⟨parent, within, inside⟩ := (ih child listed).mp deeper
        exact ⟨parent, within, .inr (arena.mem_descendants.mpr ⟨child, listed, inside⟩)⟩
    · rintro ⟨parent, within, rfl | deeper⟩
      · exact ⟨c, arena.listed within, .inl rfl⟩
      · obtain ⟨child, listed, inside⟩ := arena.mem_descendants.mp deeper
        exact ⟨child, listed, .inr ((ih child listed).mpr ⟨parent, within, inside⟩)⟩

theorem mem_descendants_root (arena : t.IsArena) : id ∈ t.descendants 0 ↔ 0 < id ∧ id < t.size := by
  refine ⟨arena.lt_of_mem_descendants, ?_⟩
  induction id using Nat.strongRecOn with
  | ind id ih =>
    rintro ⟨positive, bound⟩
    cases within : t.above id with
    | none => exact absurd ((arena.root bound).mp within) (Nat.ne_of_gt positive)
    | some parent =>
      have older := arena.before within
      refine arena.mem_descendants_iff_above.mpr ⟨parent, within, ?_⟩
      rcases Nat.eq_zero_or_pos parent with root | positive
      · exact .inl root
      · exact .inr (ih parent older ⟨positive, by omega⟩)

/-- Siblings have nothing below them in common. -/
theorem siblings_disjoint (arena : t.IsArena) {x c d : Nat} (first : t.above c = some parent)
    (second : t.above d = some parent) (one : x = c ∨ x ∈ t.descendants c)
    (other : x = d ∨ x ∈ t.descendants d) : c = d := by
  induction x using Nat.strongRecOn with
  | ind x ih =>
    -- a sibling below another would have that one, or one below it, as its parent
    have apart {c d : Nat} (first : t.above c = some parent) (second : t.above d = some parent) :
        c ∉ t.descendants d := fun below => by
      obtain ⟨around, within, inside⟩ := arena.mem_descendants_iff_above.mp below
      obtain rfl := Option.some.inj (first.symm.trans within)
      have older := arena.before second
      rcases inside with rfl | inside
      · omega
      · have younger := arena.lt_of_mem_descendants inside
        omega
    rcases one with rfl | one
    · exact other.resolve_right (apart first second)
    · rcases other with rfl | other
      · exact absurd one (apart second first)
      · obtain ⟨here, within, one⟩ := arena.mem_descendants_iff_above.mp one
        obtain ⟨there, within', other⟩ := arena.mem_descendants_iff_above.mp other
        obtain rfl := Option.some.inj (within.symm.trans within')
        exact ih here (arena.before within) one other

theorem nodup_descendants (arena : t.IsArena) (id : Nat) : (t.descendants id).Nodup := by
  induction id using arena.induction with
  | step id ih =>
    rw [arena.descendants_eq, List.nodup_flatMap]
    refine ⟨fun c listed => ?_, ?_⟩
    · refine List.nodup_cons.mpr ⟨fun inside => ?_, ih c listed⟩
      exact Nat.lt_irrefl _ (arena.lt_of_mem_descendants inside).1
    · refine (arena.ascending id).imp_of_mem fun {c d} first second before x one other => ?_
      have same := arena.siblings_disjoint (arena.only first) (arena.only second) (List.mem_cons.mp one)
        (List.mem_cons.mp other)
      omega

theorem count_below (arena : t.IsArena) (within : t.above id = some parent) :
    (t.below parent).count id = 1 :=
  List.count_eq_one_of_mem (arena.ascending parent).nodup (arena.listed within)

end IsArena

/-! ### Numbers in pre-order -/

theorem preorder_siblings {numbers : Nat → List Nat} {es : List Element} {next : Nat}
    (each : ∀ e ∈ es, ∀ id, t.Holds id e → numbers id = List.range' id e.size)
    (held : List.Forall₂ t.Holds (siblingNumbers next es) es) :
    (siblingNumbers next es).flatMap numbers = List.range' next (Rose.sizeAll es) := by
  induction es generalizing next with
  | nil => rfl
  | cons e rest ih =>
    obtain ⟨first, each⟩ := List.forall_mem_cons.mp each
    rw [siblingNumbers] at held ⊢
    cases held with
    | cons here held =>
      rw [List.flatMap_cons, first next here, ih each held, Rose.sizeAll, List.range'_append_1]

/-- The numbers in a node that begins the layout of an element follow each other in pre-order. -/
theorem Holds.preorder_numbers (arena : t.IsArena) {e : Element} (held : t.Holds id e) :
    (t.numbers id).preorder = List.range' id e.size := by
  induction e using Rose.induction generalizing id with
  | step tag children ih =>
    obtain ⟨parent, found⟩ := held.node
    have listed : t.below id = siblingNumbers (id + 1) children := by
      rw [ElementTree.below, found]
      rfl
    have below := held.below
    rw [listed] at below
    have inner := preorder_siblings (fun e member id held => ih e member held) below
    rw [arena.numbers_eq, Rose.preorder_eq, Rose.children_node, List.flatMap_map, listed, inner, Rose.size,
      Nat.add_comm 1, List.range'_succ]
    rfl

/-- An element that is laid out has its nodes in pre-order. -/
theorem descendants_ofElement (schema : Schema) (e : Element) :
    0 :: (ofElement schema e).descendants 0 = List.range (ofElement schema e).size := by
  have numbers := (holds_ofElement schema e).preorder_numbers (.ofElement schema e)
  rw [ElementTree.preorder_numbers] at numbers
  rw [numbers, size_ofElement, List.range_eq_range']

end Articulation.ElementTree
