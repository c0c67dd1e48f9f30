/-! Trees whose nodes carry a value and any number of ordered children, and their traversal in
pre-order: once by recursion on the tree and once with an explicit stack, with the equation between
the two. -/
namespace Articulation

inductive Rose (α : Type) where
  | node (value : α) (children : List (Rose α))

namespace Rose

variable {α β : Type}

def value : Rose α → α
  | .node value _ => value

def children : Rose α → List (Rose α)
  | .node _ children => children

@[simp] theorem value_node (value : α) (children : List (Rose α)) :
    (node value children).value = value := rfl

@[simp] theorem children_node (value : α) (children : List (Rose α)) :
    (node value children).children = children := rfl

mutual
def size : Rose α → Nat
  | .node _ children => 1 + sizeAll children

def sizeAll : List (Rose α) → Nat
  | [] => 0
  | tree :: trees => tree.size + sizeAll trees
end

mutual
def subtrees : Rose α → List (Rose α)
  | .node value children => .node value children :: subtreesAll children

def subtreesAll : List (Rose α) → List (Rose α)
  | [] => []
  | tree :: trees => tree.subtrees ++ subtreesAll trees
end

def preorder (tree : Rose α) : List α := tree.subtrees.map value

mutual
def map (f : α → β) : Rose α → Rose β
  | .node value children => .node (f value) (mapAll f children)

def mapAll (f : α → β) : List (Rose α) → List (Rose β)
  | [] => []
  | tree :: trees => tree.map f :: mapAll f trees
end

/-- A property holds of every tree if it passes from the children of a node to the node. -/
theorem induction {P : Rose α → Prop}
    (step : ∀ value children, (∀ tree ∈ children, P tree) → P (.node value children))
    (tree : Rose α) : P tree := by
  refine @Rose.rec α P (fun trees => ∀ tree ∈ trees, P tree) ?_ ?_ ?_ tree
  · exact step
  · intro tree member
    cases member
  · intro tree trees first rest
    exact List.forall_mem_cons.mpr ⟨first, rest⟩

theorem sizeAll_append (a b : List (Rose α)) : sizeAll (a ++ b) = sizeAll a + sizeAll b := by
  induction a with
  | nil => simp [sizeAll]
  | cons tree trees ih => simp [sizeAll, ih, Nat.add_assoc]

theorem size_eq (tree : Rose α) : tree.size = 1 + sizeAll tree.children := by
  cases tree; rfl

theorem subtrees_eq (tree : Rose α) : tree.subtrees = tree :: subtreesAll tree.children := by
  cases tree; rfl

theorem subtreesAll_eq (trees : List (Rose α)) : subtreesAll trees = trees.flatMap subtrees := by
  induction trees with
  | nil => rfl
  | cons tree trees ih => rw [subtreesAll, ih, List.flatMap_cons]

theorem preorder_eq (tree : Rose α) : tree.preorder = tree.value :: tree.children.flatMap preorder := by
  rw [preorder, subtrees_eq, List.map_cons, subtreesAll_eq, List.map_flatMap]
  rfl

theorem mem_subtrees {tree x : Rose α} :
    x ∈ tree.subtrees ↔ x = tree ∨ ∃ child ∈ tree.children, x ∈ child.subtrees := by
  rw [subtrees_eq, List.mem_cons, subtreesAll_eq, List.mem_flatMap]

theorem self_mem_subtrees (tree : Rose α) : tree ∈ tree.subtrees := mem_subtrees.mpr (.inl rfl)

theorem subtrees_trans {tree x y : Rose α} (inner : y ∈ x.subtrees) (outer : x ∈ tree.subtrees) :
    y ∈ tree.subtrees := by
  induction tree using Rose.induction with
  | step value children ih =>
    rcases mem_subtrees.mp outer with rfl | ⟨child, below, inside⟩
    · exact inner
    · exact mem_subtrees.mpr (.inr ⟨child, below, ih child below inside⟩)

theorem child_mem_subtrees {tree child : Rose α} (member : child ∈ tree.children) :
    child ∈ tree.subtrees :=
  mem_subtrees.mpr (.inr ⟨child, member, self_mem_subtrees child⟩)

/-- Every node but the root stands directly below another. -/
theorem exists_parent {tree x : Rose α} (member : x ∈ tree.subtrees) :
    x = tree ∨ ∃ parent ∈ tree.subtrees, x ∈ parent.children := by
  induction tree using Rose.induction with
  | step value children ih =>
    rcases mem_subtrees.mp member with same | ⟨child, below, inside⟩
    · exact .inl same
    · rcases ih child below inside with rfl | ⟨parent, deeper, hanging⟩
      · exact .inr ⟨_, self_mem_subtrees _, below⟩
      · exact .inr ⟨parent, mem_subtrees.mpr (.inr ⟨child, below, deeper⟩), hanging⟩

theorem mapAll_eq (f : α → β) (trees : List (Rose α)) : mapAll f trees = trees.map (map f) := by
  induction trees with
  | nil => rfl
  | cons tree trees ih => rw [mapAll, ih, List.map_cons]

@[simp] theorem value_map (f : α → β) (tree : Rose α) : (tree.map f).value = f tree.value := by
  cases tree; rfl

@[simp] theorem children_map (f : α → β) (tree : Rose α) :
    (tree.map f).children = tree.children.map (map f) := by
  cases tree; exact mapAll_eq f _

theorem subtrees_map (f : α → β) (tree : Rose α) :
    (tree.map f).subtrees = tree.subtrees.map (map f) := by
  induction tree using Rose.induction with
  | step value children ih =>
    rw [subtrees_eq, subtrees_eq, List.map_cons, children_map, children_node, subtreesAll_eq,
      subtreesAll_eq, List.flatMap_map, List.map_flatMap]
    exact congrArg (_ :: List.flatten ·) (List.map_congr_left ih)

/-- Every subtree of the trees on a stack, top of the stack first: a visited tree is replaced by its
children, the first of them on top. -/
def walk : List (Rose α) → List (Rose α)
  | [] => []
  | tree :: stack => tree :: walk (tree.children ++ stack)
termination_by stack => sizeAll stack
decreasing_by simp only [sizeAll_append, sizeAll, size_eq]; omega

theorem subtreesAll_append (a b : List (Rose α)) :
    subtreesAll (a ++ b) = subtreesAll a ++ subtreesAll b := by
  induction a with
  | nil => rfl
  | cons tree trees ih => simp [subtreesAll, ih]

/-- The stack visits what the recursion visits, in the same order. -/
theorem walk_eq_subtreesAll (stack : List (Rose α)) : walk stack = subtreesAll stack := by
  fun_induction walk stack with
  | case1 => rfl
  | case2 tree stack ih =>
    cases tree with
    | node value children =>
      rw [children_node, subtreesAll_append] at ih
      simp [ih, subtreesAll, subtrees]

end Rose

end Articulation
