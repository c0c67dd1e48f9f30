import Articulation.Element.Tree
import Mathlib.Data.List.Forall2
/-! An element laid out as nodes and read back is the element, and every node laid out is that of one of
the elements in it. -/
namespace Articulation.ElementTree

variable {t : ElementTree} {e : Element} {id : Nat}

mutual
theorem length_layout (parent : Option Nat) (next : Nat) (e : Element) :
    (layout parent next e).length = e.size := by
  cases e with
  | node tag children =>
    rw [layout, List.length_cons, length_layoutAll, Rose.size]
    omega

theorem length_layoutAll (parent : Option Nat) (next : Nat) (es : List Element) :
    (layoutAll parent next es).length = Rose.sizeAll es := by
  cases es with
  | nil => rfl
  | cons e rest => rw [layoutAll, List.length_append, length_layout, length_layoutAll, Rose.sizeAll]
end

/-- The numbers of the elements directly below one. -/
def below (t : ElementTree) (id : Nat) : List Nat := (t.nodes[id]?.map Node.children).getD []

theorem shape_succ (t : ElementTree) (fuel id : Nat) :
    t.shape (fuel + 1) id = .node id ((t.below id).map (t.shape fuel)) := rfl

/-- The nodes from a number on begin with those of an element. -/
def Holds (t : ElementTree) (id : Nat) (e : Element) : Prop :=
  ∃ parent rest, t.nodes.toList.drop id = layout parent id e ++ rest

theorem holds_siblings {parent : Option Nat} {es : List Element} {rest : List Node}
    (laid : t.nodes.toList.drop id = layoutAll parent id es ++ rest) :
    List.Forall₂ t.Holds (siblingNumbers id es) es := by
  induction es generalizing id with
  | nil => exact .nil
  | cons e others ih =>
    rw [layoutAll, List.append_assoc] at laid
    refine .cons ⟨parent, _, laid⟩ (ih ?_)
    have later := congrArg (List.drop e.size) laid
    rwa [List.drop_left' (length_layout parent id e), List.drop_drop] at later

theorem Holds.node (held : t.Holds id e) :
    ∃ parent, t.nodes[id]? = some ⟨e.value, parent, siblingNumbers (id + 1) e.children⟩ := by
  obtain ⟨parent, rest, laid⟩ := held
  cases e with
  | node tag children =>
    have first := congrArg (fun nodes : List Node => nodes[0]?) laid
    exact ⟨parent, by simpa [layout] using first⟩

theorem Holds.lt (held : t.Holds id e) : id < t.size := by
  obtain ⟨_, found⟩ := held.node
  exact (Array.getElem?_eq_some_iff.mp found).1

theorem Holds.tag (held : t.Holds id e) : t.tag id = e.value := by
  obtain ⟨_, found⟩ := held.node
  rw [ElementTree.tag, found]
  rfl

theorem Holds.below (held : t.Holds id e) : List.Forall₂ t.Holds (t.below id) e.children := by
  obtain ⟨_, found⟩ := held.node
  rw [ElementTree.below, found]
  obtain ⟨parent, rest, laid⟩ := held
  cases e with
  | node tag children =>
    rw [layout, List.cons_append] at laid
    have later := congrArg (List.drop 1) laid
    rw [List.drop_drop] at later
    exact holds_siblings later

theorem holds_ofElement (schema : Schema) (e : Element) : (ofElement schema e).Holds 0 e :=
  ⟨none, [], (List.append_nil _).symm⟩

theorem size_ofElement (schema : Schema) (e : Element) : (ofElement schema e).size = e.size := by
  rw [size, ofElement, List.size_toArray, length_layout]

theorem size_le_sizeAll {es : List Element} (member : e ∈ es) : e.size ≤ Rose.sizeAll es := by
  induction es with
  | nil => cases member
  | cons head rest ih =>
    rw [Rose.sizeAll]
    rcases List.mem_cons.mp member with rfl | later
    · omega
    · have bound := ih later
      omega

theorem map_shape {fuel : Nat} (held : t.Holds id e) (enough : e.size ≤ fuel) :
    (t.shape fuel id).map t.tag = e := by
  induction e using Rose.induction generalizing id fuel with
  | step tag children ih =>
    have bound : Rose.sizeAll children < fuel := by
      rw [Rose.size] at enough
      omega
    obtain ⟨fuel, rfl⟩ := Nat.exists_eq_add_one_of_ne_zero (Nat.ne_of_gt (Nat.zero_lt_of_lt bound))
    rw [shape_succ, Rose.map, held.tag, Rose.mapAll_eq, List.map_map]
    refine congrArg (Rose.node tag) ?_
    have small : ∀ child ∈ children, child.size ≤ fuel := fun child member =>
      Nat.le_trans (size_le_sizeAll member) (Nat.le_of_lt_succ bound)
    have below := held.below
    rw [Rose.children_node] at below
    clear bound enough held
    generalize t.below id = numbers at below
    induction below with
    | nil => rfl
    | cons first _ rest =>
      obtain ⟨here, later⟩ := List.forall_mem_cons.mp ih
      obtain ⟨enough, others⟩ := List.forall_mem_cons.mp small
      rw [List.map_cons, rest later others, Function.comp_apply, here first enough]

/-- Laying out forgets nothing. -/
theorem root_ofElement (schema : Schema) (e : Element) : (ofElement schema e).root = e :=
  map_shape (holds_ofElement schema e) (Nat.le_of_eq (size_ofElement schema e).symm)

theorem exists_held {es : List Element} {next i : Nat}
    (each : ∀ e ∈ es, ∀ {id i : Nat}, t.Holds id e → i < e.size → ∃ x ∈ e.subtrees, t.Holds (id + i) x)
    (held : List.Forall₂ t.Holds (siblingNumbers next es) es) (bound : i < Rose.sizeAll es) :
    ∃ x ∈ Rose.subtreesAll es, t.Holds (next + i) x := by
  induction es generalizing i next with
  | nil => cases bound
  | cons e rest ih =>
    obtain ⟨here, others⟩ := List.forall_mem_cons.mp each
    rw [siblingNumbers] at held
    rw [Rose.sizeAll] at bound
    rw [Rose.subtreesAll]
    cases held with
    | cons first held =>
      by_cases within : i < e.size
      · obtain ⟨x, member, found⟩ := here first within
        exact ⟨x, List.mem_append_left _ member, found⟩
      · obtain ⟨x, member, found⟩ := ih (i := i - e.size) others held (by omega)
        refine ⟨x, List.mem_append_right _ member, ?_⟩
        rwa [show next + e.size + (i - e.size) = next + i by omega] at found

/-- Behind the number of an element are those of all elements in it. -/
theorem Holds.exists_mem (held : t.Holds id e) {i : Nat} (bound : i < e.size) :
    ∃ x ∈ e.subtrees, t.Holds (id + i) x := by
  induction e using Rose.induction generalizing id i with
  | step tag children ih =>
    cases i with
    | zero => exact ⟨_, Rose.self_mem_subtrees _, held⟩
    | succ i =>
      have below := held.below
      obtain ⟨parent, found⟩ := held.node
      rw [ElementTree.below, found] at below
      rw [Rose.size] at bound
      obtain ⟨x, member, there⟩ := exists_held (fun e member _ _ held => ih e member held) below
        (i := i) (by omega)
      refine ⟨x, by rw [Rose.subtrees_eq]; exact List.mem_cons_of_mem _ member, ?_⟩
      rwa [Nat.add_assoc, Nat.add_comm 1] at there

end Articulation.ElementTree
