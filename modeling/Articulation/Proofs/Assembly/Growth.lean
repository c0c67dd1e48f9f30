import Articulation.Proofs.Assembly.Walk
/-! What consuming an order of connections builds. Consumed from its end, an order that goes from the
top down leaves in the pool exactly the bodies that no consumed connection leads to, each with all that
the consumed connections hang below it. No connection is missing from its slot, no child and no parent
from the pool. -/
namespace Articulation.Assembly

/-- The body of a name, with nothing on it where there is none. -/
def bodyOf (bodies : List Body) (name : String) : Body :=
  (bodies.find? (isNamed name)).getD (.ofName name)

/-- A body as it hangs below its parent by a connection. -/
def hung (c : Connection) (body : Body) : Body :=
  (body.jointed { c.joint with pose := .identity }).placed c.pose

/-- The body of a name with all that an order of connections hangs below it. -/
def grown (bodies : List Body) : List Connection → String → Body
  | [], name => bodyOf bodies name
  | c :: later, name =>
    if c.parent = name then
      .node (grown bodies later name).link
        (hung c (grown bodies later c.child) :: (grown bodies later name).children)
    else grown bodies later name

/-- The child of a connection with all that an order hangs below it, as it hangs itself. -/
def branch (bodies : List Body) (order : List Connection) (c : Connection) : Body :=
  hung c (grown bodies order c.child)

variable {bodies : List Body} {met : List String} {order : List Connection}

@[simp] theorem name_hung (c : Connection) (body : Body) : (hung c body).name = body.name := by
  simp [hung]

@[simp] theorem children_hung (c : Connection) (body : Body) :
    (hung c body).children = body.children := by
  simp [hung]

theorem link_hung (c : Connection) (body : Body) :
    (hung c body).link = { body.link with
      pose := c.pose
      joints := body.link.joints ++ [{ c.joint with pose := .identity }] } := by
  simp [hung]

theorem isNamed_iff {name : String} {body : Body} : isNamed name body = true ↔ body.name = name := by
  simp [isNamed]

theorem name_bodyOf (bodies : List Body) (name : String) : (bodyOf bodies name).name = name := by
  unfold bodyOf
  cases found : bodies.find? (isNamed name) with
  | none => rfl
  | some body => exact isNamed_iff.mp (List.find?_some found)

theorem bodyOf_mem {name : String} (known : name ∈ bodies.map Body.name) :
    bodyOf bodies name ∈ bodies := by
  unfold bodyOf
  cases found : bodies.find? (isNamed name) with
  | none =>
    obtain ⟨body, member, same⟩ := List.mem_map.mp known
    exact absurd (isNamed_iff.mpr same) (List.find?_eq_none.mp found body member)
  | some body => exact List.mem_of_find?_eq_some found

theorem find?_isNamed (distinct : (bodies.map Body.name).Nodup) {body : Body} (member : body ∈ bodies) :
    bodies.find? (isNamed body.name) = some body := by
  cases found : bodies.find? (isNamed body.name) with
  | none => exact absurd (isNamed_iff.mpr rfl) (List.find?_eq_none.mp found body member)
  | some other =>
    have same : other.name = body.name := isNamed_iff.mp (List.find?_some found)
    exact congrArg some (List.inj_on_of_nodup_map distinct (List.mem_of_find?_eq_some found) member same)

theorem bodyOf_name (distinct : (bodies.map Body.name).Nodup) {body : Body} (member : body ∈ bodies) :
    bodyOf bodies body.name = body := by
  simp [bodyOf, find?_isNamed distinct member]

/-! ### The grown body -/

theorem link_grown (bodies : List Body) (order : List Connection) (name : String) :
    (grown bodies order name).link = (bodyOf bodies name).link := by
  induction order with
  | nil => rfl
  | cons c later ih =>
    rw [grown]
    split
    · exact ih
    · exact ih

theorem name_grown (bodies : List Body) (order : List Connection) (name : String) :
    (grown bodies order name).name = name := by
  rw [Body.name, link_grown]
  exact name_bodyOf bodies name

theorem name_branch (bodies : List Body) (order : List Connection) (c : Connection) :
    (branch bodies order c).name = c.child := by
  rw [branch, name_hung, name_grown]

theorem children_branch (bodies : List Body) (order : List Connection) (c : Connection) :
    (branch bodies order c).children = (grown bodies order c.child).children :=
  children_hung c _

/-- Below a body hang, before what hung there, the bodies that its connections lead to, each grown
itself. -/
theorem grown_eq (top : TopDown met order) (name : String) :
    grown bodies order name = .node (bodyOf bodies name).link
      ((order.filter (·.parent == name)).map (branch bodies order) ++
        (bodyOf bodies name).children) := by
  induction top generalizing name with
  | nil => simp only [grown, List.filter_nil, List.map_nil, List.nil_append]; cases bodyOf bodies name; rfl
  | @cons met c later parent child rest ih =>
    have apart := (TopDown.cons parent child rest).parent_not_child
    -- The first parent is no child, so no child grows by the first connection.
    have same : ∀ x ∈ c :: later, branch bodies (c :: later) x = branch bodies later x := by
      intro x member
      refine congrArg (hung x) (if_neg fun equal => ?_)
      exact apart (List.mem_map.mpr ⟨x, member, equal.symm⟩)
    have below : (later.filter (·.parent == name)).map (branch bodies (c :: later)) =
        (later.filter (·.parent == name)).map (branch bodies later) := by
      apply List.map_congr_left
      intro x member
      exact same x (List.mem_cons_of_mem _ (List.mem_of_mem_filter member))
    by_cases here : c.parent = name
    · have split : (c :: later).filter (·.parent == name) = c :: later.filter (·.parent == name) := by
        simp [here]
      rw [split, List.map_cons, below, same c List.mem_cons_self, grown, if_pos here, ih name]
      rfl
    · have split : (c :: later).filter (·.parent == name) = later.filter (·.parent == name) := by
        simp [here]
      rw [split, below, grown, if_neg here, ih name]

/-! ### Consuming an order -/

/-- What is left in the pool behind an order. -/
def pooled (bodies : List Body) (order : List Connection) : List Body :=
  (bodies.filter fun body => !(order.map (·.child)).contains body.name).map fun body =>
    grown bodies order body.name

theorem mem_pooled {name : String} (known : name ∈ bodies.map Body.name)
    (top : name ∉ order.map (·.child)) : grown bodies order name ∈ pooled bodies order := by
  obtain ⟨body, member, rfl⟩ := List.mem_map.mp known
  refine List.mem_map.mpr ⟨body, List.mem_filter.mpr ⟨member, ?_⟩, rfl⟩
  simpa using top

theorem names_pooled (bodies : List Body) (order : List Connection) :
    (pooled bodies order).map Body.name =
      (bodies.map Body.name).filter fun name => !(order.map (·.child)).contains name := by
  rw [pooled, List.map_map, List.filter_map]
  apply List.map_congr_left
  intro body _
  exact name_grown bodies order body.name

theorem nodup_pooled (distinct : (bodies.map Body.name).Nodup) (order : List Connection) :
    ((pooled bodies order).map Body.name).Nodup := by
  rw [names_pooled]
  exact distinct.filter _

theorem pooled_nil (distinct : (bodies.map Body.name).Nodup) : pooled bodies [] = bodies := by
  have all : (bodies.filter fun body => !(([] : List Connection).map (·.child)).contains body.name)
      = bodies := List.filter_eq_self.mpr (by simp)
  rw [pooled, all]
  conv => rhs; rw [← List.map_id bodies]
  apply List.map_congr_left
  intro body member
  exact bodyOf_name distinct member

/-- Without the child of an earlier connection, and with that child below its parent, the pool is what
the longer order leaves. -/
theorem pooled_cons (c : Connection) (order : List Connection) :
    ((pooled bodies order).filter fun body => !isNamed c.child body).map (fun body =>
      if isNamed c.parent body then
        .node body.link (hung c (grown bodies order c.child) :: body.children) else body) =
      pooled bodies (c :: order) := by
  have kept : ((pooled bodies order).filter fun body => !isNamed c.child body) =
      (bodies.filter fun body => !((c :: order).map (·.child)).contains body.name).map fun body =>
        grown bodies order body.name := by
    rw [pooled, List.filter_map, List.filter_filter]
    congr 1
    apply List.filter_congr
    intro body _
    rw [Bool.eq_iff_iff]
    simp [isNamed, name_grown]
  rw [kept, List.map_map, pooled]
  apply List.map_congr_left
  intro body _
  by_cases here : c.parent = body.name
  · simp [grown, isNamed, name_grown, here]
  · simp [grown, isNamed, name_grown, here, Ne.symm here]

theorem find?_pooled (distinct : (bodies.map Body.name).Nodup) {name : String}
    (known : name ∈ bodies.map Body.name) (fresh : name ∉ order.map (·.child)) :
    (pooled bodies order).find? (isNamed name) = some (grown bodies order name) := by
  have found := find?_isNamed (nodup_pooled distinct order) (mem_pooled known fresh)
  rwa [name_grown] at found

/-- A connection whose slot is full, whose child is in the pool, and whose parent is another body of the
pool: no way of failing or passing over it is open. -/
def Stock.Live (s : Stock) (c : Indexed) : Prop :=
  s.slots[c.2]? = some (some c.1) ∧ (∃ child, s.pool.find? (isNamed c.1.child) = some child) ∧
    (s.pool.filter fun body => !isNamed c.1.child body).any (isNamed c.1.parent) = true

theorem live_pooled (distinct : (bodies.map Body.name).Nodup) {c : Indexed}
    (top : TopDown met (c.1 :: order)) (parent : c.1.parent ∈ bodies.map Body.name)
    (child : c.1.child ∈ bodies.map Body.name) {slots : List (Option Connection)}
    (slot : slots[c.2]? = some (some c.1)) : Stock.Live ⟨slots, pooled bodies order⟩ c := by
  have once := (List.nodup_cons.mp top.nodup).1
  have apart := top.parent_not_child
  simp only [List.map_cons, List.mem_cons, not_or] at apart
  refine ⟨slot, ⟨_, find?_pooled distinct child once⟩, ?_⟩
  refine List.any_eq_true.mpr ⟨grown bodies order c.1.parent, ?_, ?_⟩
  · refine List.mem_filter.mpr ⟨mem_pooled parent apart.2, ?_⟩
    simp [isNamed, name_grown, apart.1]
  · simp [isNamed, name_grown]

/-- One step: a live connection moves its child, as far as it has grown, below its parent. -/
theorem consume_pooled (distinct : (bodies.map Body.name).Nodup) {c : Indexed}
    (top : TopDown met (c.1 :: order)) (parent : c.1.parent ∈ bodies.map Body.name)
    (child : c.1.child ∈ bodies.map Body.name) {slots : List (Option Connection)}
    (slot : slots[c.2]? = some (some c.1)) :
    Stock.consume ⟨slots, pooled bodies order⟩ c.2 =
      .ok ⟨slots.set c.2 none, pooled bodies (c.1 :: order)⟩ := by
  have once := (List.nodup_cons.mp top.nodup).1
  obtain ⟨_, _, present⟩ := live_pooled distinct top parent child slot
  simp only [Stock.consume, slot, Option.join_some, find?_pooled distinct child once, present, if_true,
    Body.attachFirst_eq]
  rw [← pooled_cons]
  rfl

/-- A whole run: the pool follows the order, and no slot is emptied but those of the order. -/
theorem foldlM_consume (distinct : (bodies.map Body.name).Nodup) {order : List Indexed}
    (top : TopDown met (order.map (·.1)))
    (known : ∀ c ∈ order, c.1.parent ∈ bodies.map Body.name ∧ c.1.child ∈ bodies.map Body.name)
    (once : (order.map (·.2)).Nodup) {slots : List (Option Connection)}
    (full : ∀ c ∈ order, slots[c.2]? = some (some c.1)) :
    ∃ left, (order.map (·.2)).reverse.foldlM Stock.consume ⟨slots, bodies⟩ =
        .ok ⟨left, pooled bodies (order.map (·.1))⟩ ∧
      ∀ i, i ∉ order.map (·.2) → left[i]? = slots[i]? := by
  induction order generalizing met with
  | nil =>
    refine ⟨slots, ?_, fun _ _ => rfl⟩
    simp only [List.map_nil, List.reverse_nil, List.foldlM_nil, pooled_nil distinct]
    rfl
  | cons c order ih =>
    obtain ⟨first, once⟩ := List.nodup_cons.mp once
    obtain ⟨⟨parent, child⟩, known⟩ := List.forall_mem_cons.mp known
    obtain ⟨here, full⟩ := List.forall_mem_cons.mp full
    have rest : TopDown (c.1.child :: met) (order.map (·.1)) := by
      cases top with
      | cons _ _ rest => exact rest
    obtain ⟨left, run, kept⟩ := ih rest known once full
    have slot : left[c.2]? = some (some c.1) := (kept _ first).trans here
    refine ⟨left.set c.2 none, ?_, ?_⟩
    · rw [List.map_cons, List.reverse_cons, List.foldlM_append, run]
      simp only [bind, Except.bind, List.foldlM_cons, List.foldlM_nil,
        consume_pooled distinct top parent child slot, pure, Except.pure, List.map_cons]
    · intro i outside
      simp only [List.map_cons, List.mem_cons, not_or] at outside
      rw [List.getElem?_set_ne (Ne.symm outside.1), kept i outside.2]

end Articulation.Assembly
