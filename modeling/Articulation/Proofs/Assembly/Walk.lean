import Articulation.Assembly
import Articulation.Proofs.Traversal
import Mathlib.Data.List.Nodup
import Mathlib.Data.List.Perm.Subperm
import Mathlib.Logic.Relation
/-! The breadth-first walk over connections. It ends with an order exactly if the root and the children
are distinct names and the root reaches every parent; such an order is the concatenation of what stands
below the root and below each child, in the order of the children themselves. -/
namespace Articulation.Assembly
open Relation

/-- Some connection leads from one name to the other. -/
def Leads (connections : List Connection) (parent child : String) : Prop :=
  ∃ c ∈ connections, c.parent = parent ∧ c.child = child

/-- A path of connections leads from one name to the other. -/
def Reaches (connections : List Connection) : String → String → Prop :=
  ReflTransGen (Leads connections)

/-! ### Orders from the top down -/

/-- Every connection leaves a name met before it and leads to a new one. -/
inductive TopDown : List String → List Connection → Prop where
  | nil {met} : TopDown met []
  | cons {met c later} : c.parent ∈ met → c.child ∉ met → TopDown (c.child :: met) later →
      TopDown met (c :: later)

namespace TopDown

theorem congr {met known : List String} {order : List Connection} (top : TopDown met order)
    (same : ∀ name, name ∈ met ↔ name ∈ known) : TopDown known order := by
  induction top generalizing known with
  | nil => exact .nil
  | cons parent child _ ih =>
    refine .cons ((same _).mp parent) (fun member => child ((same _).mpr member)) (ih ?_)
    intro name
    simp only [List.mem_cons, same]

theorem append {met : List String} {order later : List Connection} (top : TopDown met order)
    (rest : TopDown (met ++ order.map (·.child)) later) : TopDown met (order ++ later) := by
  induction top with
  | nil => simpa using rest
  | cons parent child _ ih =>
    refine .cons parent child (ih (rest.congr ?_))
    intro name
    simp only [List.map_cons, List.cons_append, List.mem_append, List.mem_cons]
    tauto

theorem take {met : List String} {order later : List Connection}
    (top : TopDown met (order ++ later)) : TopDown met order := by
  induction order generalizing met with
  | nil => exact .nil
  | cons c order ih =>
    cases top with
    | cons parent child rest => exact .cons parent child (ih rest)

/-- What follows a first part of the order is itself such an order. -/
theorem drop {met : List String} (order : List Connection) {later : List Connection}
    (top : TopDown met (order ++ later)) : TopDown (met ++ order.map (·.child)) later := by
  induction order generalizing met with
  | nil => simpa using top
  | cons c order ih =>
    cases top with
    | cons _ _ rest =>
      refine (ih rest).congr ?_
      intro name
      simp only [List.map_cons, List.cons_append, List.mem_append, List.mem_cons]
      tauto

/-- Connections from names met before to distinct new names. -/
theorem fan {met : List String} {order : List Connection} (parent : ∀ c ∈ order, c.parent ∈ met)
    (fresh : ∀ c ∈ order, c.child ∉ met) (distinct : (order.map (·.child)).Nodup) :
    TopDown met order := by
  induction order generalizing met with
  | nil => exact .nil
  | cons c order ih =>
    obtain ⟨first, distinct⟩ := List.nodup_cons.mp distinct
    refine .cons (parent c List.mem_cons_self) (fresh c List.mem_cons_self) (ih ?_ ?_ distinct)
    · intro x member
      exact List.mem_cons_of_mem _ (parent x (List.mem_cons_of_mem _ member))
    · intro x member met
      rcases List.mem_cons.mp met with same | met
      · exact first (List.mem_map.mpr ⟨x, member, same⟩)
      · exact fresh x (List.mem_cons_of_mem _ member) met

theorem child_not_mem {met : List String} {order : List Connection} (top : TopDown met order)
    {c : Connection} (member : c ∈ order) : c.child ∉ met := by
  induction top with
  | nil => cases member
  | cons _ child _ ih =>
    rcases List.mem_cons.mp member with rfl | member
    · exact child
    · exact fun met => ih member (List.mem_cons_of_mem _ met)

theorem nodup {met : List String} {order : List Connection} (top : TopDown met order) :
    (order.map (·.child)).Nodup := by
  induction top with
  | nil => exact .nil
  | cons _ _ rest ih =>
    refine List.nodup_cons.mpr ⟨?_, ih⟩
    intro repeated
    obtain ⟨c, member, same⟩ := List.mem_map.mp repeated
    exact rest.child_not_mem member (same ▸ List.mem_cons_self)

theorem root_nodup {root : String} {order : List Connection} (top : TopDown [root] order) :
    (root :: order.map (·.child)).Nodup := by
  refine List.nodup_cons.mpr ⟨?_, top.nodup⟩
  intro repeated
  obtain ⟨c, member, same⟩ := List.mem_map.mp repeated
  exact top.child_not_mem member (by simp [same])

/-- The parent of a connection is no child of it or of a later one. -/
theorem parent_not_child {met : List String} {c : Connection} {later : List Connection}
    (top : TopDown met (c :: later)) : c.parent ∉ (c :: later).map (·.child) := by
  intro repeated
  obtain ⟨x, member, same⟩ := List.mem_map.mp repeated
  cases top with
  | cons parent child rest =>
    exact (TopDown.cons parent child rest).child_not_mem member (same ▸ parent)

theorem parent_mem {met : List String} {order : List Connection} (top : TopDown met order)
    {c : Connection} (member : c ∈ order) : c.parent ∈ met ++ order.map (·.child) := by
  induction top with
  | nil => cases member
  | cons parent _ _ ih =>
    rcases List.mem_cons.mp member with rfl | member
    · exact List.mem_append_left _ parent
    · have found := ih member
      simp only [List.map_cons, List.cons_append, List.mem_append, List.mem_cons] at found ⊢
      tauto

/-- A property holds of every name if it passes from the children of a name to the name: names are
met from the last connection on, so that all below a name is done before it. -/
theorem induction {met : List String} {order : List Connection} (top : TopDown met order)
    {P : String → Prop}
    (step : ∀ name, (∀ c ∈ order, c.parent = name → P c.child) → P name) (name : String) :
    P name := by
  have upTo : ∀ before later, before ++ later = order →
      ∀ name, (∀ c ∈ order, c.parent = name → c ∈ later) → P name := by
    intro before later
    induction later generalizing before with
    | nil =>
      intro _ name none
      exact step name fun c member same => absurd (none c member same) List.not_mem_nil
    | cons c later ih =>
      intro whole name within
      apply step
      intro x member same
      apply ih (before ++ [c]) (by simpa using whole)
      intro y found below
      -- What lies below `x` comes after `x`, and so after `c`.
      have split : TopDown met (before ++ c :: later) := whole ▸ top
      have fresh : x.child ∉ met ++ before.map (·.child) :=
        (split.drop before).child_not_mem (within x member same)
      rw [← whole] at found
      rcases List.mem_append.mp found with early | late
      · exact absurd (below ▸ split.take.parent_mem early) fresh
      · rcases List.mem_cons.mp late with rfl | late
        · cases split.drop before with
          | cons parent _ _ => exact absurd (below ▸ parent) fresh
        · exact late
  exact upTo [] order rfl name fun _ member _ => member

/-- Every parent of such an order is reached from where it starts. -/
theorem reaches {root : String} {order connections : List Connection}
    (top : TopDown [root] order) (within : ∀ c ∈ order, c ∈ connections) :
    ∀ name ∈ root :: order.map (·.child), Reaches connections root name := by
  have all : ∀ met order, TopDown met order → (∀ c ∈ order, c ∈ connections) →
      (∀ name ∈ met, Reaches connections root name) →
      ∀ name ∈ order.map (·.child), Reaches connections root name := by
    intro met order top
    induction top with
    | nil => intro _ _ name member; cases member
    | @cons met c later parent child _ ih =>
      intro within start
      have reached : Reaches connections root c.child :=
        (start _ parent).tail ⟨c, within c List.mem_cons_self, rfl, rfl⟩
      intro name member
      rcases List.mem_cons.mp member with rfl | member
      · exact reached
      · refine ih (fun c member => within c (List.mem_cons_of_mem _ member)) ?_ name member
        intro name met
        rcases List.mem_cons.mp met with rfl | met
        · exact reached
        · exact start name met
  intro name member
  rcases List.mem_cons.mp member with rfl | member
  · exact .refl
  · refine all [root] order top within ?_ name member
    intro name same
    rw [List.mem_singleton.mp same]
    exact .refl

end TopDown

/-! ### The walk -/

/-- The children that connections lead to. -/
def children (order : List Indexed) : List String := order.map fun c => c.1.child

@[simp] theorem children_append (order later : List Indexed) :
    children (order ++ later) = children order ++ children later := List.map_append

theorem map_children (order : List Indexed) : (order.map (·.1)).map (·.child) = children order := by
  simp only [children, List.map_map, Function.comp_def]

theorem children_zipIdx (connections : List Connection) :
    children connections.zipIdx = connections.map (·.child) := by
  rw [← map_children, List.zipIdx_map_fst]

theorem mem_below {connections : List Indexed} {name : String} {c : Indexed} :
    c ∈ below connections name ↔ c ∈ connections ∧ c.1.parent = name := by
  simp only [below, List.mem_filter, beq_iff_eq]

/-- The frontier behind connections that were all taken. -/
def Frontier.takeAll (f : Frontier) (cs : List Indexed) : Frontier :=
  ⟨(children cs).reverse ++ f.reached, f.order ++ cs, f.queue ++ children cs⟩

/-- Connections are all taken exactly if their children are distinct and were not met before. -/
theorem foldlM_take (total : Nat) (cs : List Indexed) (f g : Frontier) :
    cs.foldlM (Frontier.take total) f = .ok g ↔
      (children cs).Nodup ∧ (∀ c ∈ cs, c.1.child ∉ f.reached) ∧ g = f.takeAll cs := by
  induction cs generalizing f with
  | nil => simp [Frontier.takeAll, children, pure, Except.pure, eq_comm]
  | cons c cs ih =>
    rw [List.foldlM_cons]
    by_cases met : c.1.child ∈ f.reached
    · simp [Frontier.take, met, bind, Except.bind]
    · simp only [Frontier.take, List.contains_eq_mem, met, decide_false, Bool.false_eq_true,
        if_false, bind, Except.bind, ih]
      have same : (Frontier.mk (c.1.child :: f.reached) (f.order ++ [c])
          (f.queue ++ [c.1.child])).takeAll cs = f.takeAll (c :: cs) := by
        simp [Frontier.takeAll, children]
      rw [same]
      simp only [children, List.map_cons, List.nodup_cons, List.mem_cons, not_or, List.mem_map,
        forall_eq_or_imp]
      constructor
      · rintro ⟨distinct, fresh, result⟩
        refine ⟨⟨?_, distinct⟩, ⟨met, fun x member => (fresh x member).2⟩, result⟩
        rintro ⟨x, member, same⟩
        exact (fresh x member).1 same
      · rintro ⟨⟨first, distinct⟩, ⟨_, fresh⟩, result⟩
        exact ⟨distinct, fun x member => ⟨fun same => first ⟨x, member, same⟩, fresh x member⟩,
          result⟩

/-- What holds between two visits: the names visited and the queue are the root and the children
taken, in order, and the connections taken are those below the visited names. -/
structure Frontier.Sound (connections : List Connection) (root : String) (visited : List String)
    (f : Frontier) : Prop where
  reached : ∀ name, name ∈ f.reached ↔ name ∈ root :: children f.order
  queued : visited ++ f.queue = root :: children f.order
  taken : f.order = visited.flatMap (below connections.zipIdx)
  topDown : TopDown [root] (f.order.map (·.1))

namespace Frontier.Sound

variable {connections : List Connection} {root : String} {visited : List String} {f g : Frontier}

theorem start : Sound connections root [] ⟨[root], [], [root]⟩ where
  reached _ := by simp [children]
  queued := rfl
  taken := rfl
  topDown := .nil

theorem nodup (sound : f.Sound connections root visited) : (root :: children f.order).Nodup := by
  rw [← map_children]
  exact sound.topDown.root_nodup

theorem order_subset (sound : f.Sound connections root visited) : f.order ⊆ connections.zipIdx := by
  intro c member
  rw [sound.taken] at member
  obtain ⟨name, _, member⟩ := List.mem_flatMap.mp member
  exact (mem_below.mp member).1

theorem order_nodup (sound : f.Sound connections root visited) : f.order.Nodup :=
  List.Nodup.of_map _ (List.nodup_cons.mp sound.nodup).2

theorem order_length (sound : f.Sound connections root visited) :
    f.order.length ≤ connections.length := by
  have bound := (sound.order_nodup.subperm sound.order_subset).length_le
  simpa only [List.length_zipIdx] using bound

/-- Below the name to be visited connections to distinct new names go on from the top down. -/
theorem topDown_append {name : String} {queue : List String} {cs : List Indexed}
    (sound : f.Sound connections root visited) (next : f.queue = name :: queue)
    (parent : ∀ c ∈ cs, c.1.parent = name) (distinct : (children cs).Nodup)
    (fresh : ∀ c ∈ cs, c.1.child ∉ f.reached) : TopDown [root] ((f.order ++ cs).map (·.1)) := by
  have known : name ∈ root :: children f.order := by
    rw [← sound.queued, next]
    simp
  rw [List.map_append]
  refine sound.topDown.append (.fan ?_ ?_ (by rwa [map_children]))
  · intro c member
    obtain ⟨x, below, rfl⟩ := List.mem_map.mp member
    rw [parent x below, map_children]
    simpa using known
  · intro c member met
    obtain ⟨x, below, rfl⟩ := List.mem_map.mp member
    rw [map_children] at met
    exact fresh x below ((sound.reached _).mpr (by simpa using met))

/-- What hangs below the name to be visited was not taken before. -/
theorem below_fresh {name : String} {queue : List String} (sound : f.Sound connections root visited)
    (next : f.queue = name :: queue) {c : Indexed} (member : c ∈ below connections.zipIdx name) :
    c ∉ f.order := by
  intro early
  have once := sound.nodup
  rw [← sound.queued, next] at once
  rw [sound.taken] at early
  obtain ⟨other, visit, under⟩ := List.mem_flatMap.mp early
  have same : other = name := (mem_below.mp under).2.symm.trans (mem_below.mp member).2
  exact (List.nodup_append.mp once).2.2 _ visit _ List.mem_cons_self same

/-- One visit: if all connections below the name are taken, the name counts as visited. -/
theorem visit {name : String} {queue : List String} (sound : f.Sound connections root visited)
    (next : f.queue = name :: queue)
    (taken : (below connections.zipIdx name).foldlM (Frontier.take connections.length)
      { f with queue } = .ok g) : g.Sound connections root (visited ++ [name]) := by
  obtain ⟨distinct, fresh, rfl⟩ := (foldlM_take _ _ _ _).mp taken
  have queued := sound.queued
  rw [next] at queued
  refine ⟨?_, ?_, ?_, ?_⟩
  · intro other
    simp only [Frontier.takeAll, List.mem_append, List.mem_reverse, sound.reached, children_append,
      List.mem_cons]
    tauto
  · simp only [Frontier.takeAll, children_append, List.append_assoc]
    rw [← List.cons_append, ← queued]
    simp
  · simp [Frontier.takeAll, sound.taken]
  · exact sound.topDown_append next (fun c member => (mem_below.mp member).2) distinct fresh

/-- As no name is queued twice, behind more visits than there are connections nothing is queued. -/
theorem exhausted (sound : f.Sound connections root visited)
    (many : connections.length < visited.length) : f.queue = [] := by
  have sizes := congrArg List.length sound.queued
  have bound := sound.order_length
  simp only [List.length_append, List.length_cons, children, List.length_map] at sizes
  exact List.eq_nil_of_length_eq_zero (by omega)

/-- The walk ends with an empty queue. -/
theorem explore {fuel : Nat} (sound : f.Sound connections root visited)
    (enough : connections.length < fuel + visited.length)
    (walked : explore connections.zipIdx fuel f = .ok g) :
    ∃ visited, g.Sound connections root visited ∧ g.queue = [] := by
  induction fuel generalizing f visited with
  | zero =>
    cases walked
    exact ⟨visited, sound, sound.exhausted (by omega)⟩
  | succ fuel ih =>
    unfold Assembly.explore at walked
    split at walked
    · cases walked
      exact ⟨visited, sound, ‹_›⟩
    · rename_i name queue next
      cases taken : (below connections.zipIdx name).foldlM
          (Frontier.take connections.zipIdx.length) { f with queue } with
      | error e => simp only [taken, bind, Except.bind] at walked; contradiction
      | ok h =>
        simp only [taken, bind, Except.bind] at walked
        rw [List.length_zipIdx] at taken
        refine ih (sound.visit next taken) ?_ walked
        simp only [List.length_append, List.length_singleton]
        omega

/-- Where the root and all children are distinct no child is met twice, so the walk cannot fail. -/
theorem explore_ok (sound : f.Sound connections root visited)
    (distinct : (root :: connections.map (·.child)).Nodup) (fuel : Nat) :
    ∃ g, Assembly.explore connections.zipIdx fuel f = .ok g := by
  induction fuel generalizing f visited with
  | zero => exact ⟨f, rfl⟩
  | succ fuel ih =>
    unfold Assembly.explore
    split
    · exact ⟨f, rfl⟩
    · rename_i name queue next
      rw [← children_zipIdx] at distinct
      obtain ⟨noRoot, distinct⟩ := List.nodup_cons.mp distinct
      have taken : (below connections.zipIdx name).foldlM
          (Frontier.take connections.zipIdx.length) { f with queue } =
            .ok (Frontier.takeAll { f with queue } (below connections.zipIdx name)) := by
        refine (foldlM_take _ _ _ _).mpr ⟨?_, ?_, rfl⟩
        · exact distinct.sublist (List.Sublist.map _ List.filter_sublist)
        · intro c member met
          obtain ⟨listed, parent⟩ := mem_below.mp member
          rcases List.mem_cons.mp ((sound.reached _).mp met) with same | old
          · exact noRoot (List.mem_map.mpr ⟨c, listed, same⟩)
          · obtain ⟨x, early, same⟩ := List.mem_map.mp old
            have equal : x = c :=
              List.inj_on_of_nodup_map distinct (sound.order_subset early) listed same
            exact sound.below_fresh next member (equal ▸ early)
      rw [taken]
      rw [List.length_zipIdx] at taken
      exact ih (sound.visit next taken)

/-- At the end of the walk whatever the root reaches has been visited. -/
theorem visited_of_reaches (sound : f.Sound connections root visited) (done : f.queue = [])
    {name : String} (path : Reaches connections root name) : name ∈ visited := by
  have visits : visited = root :: children f.order := by
    rw [← sound.queued, done, List.append_nil]
  induction path with
  | refl => rw [visits]; exact List.mem_cons_self
  | tail _ edge ih =>
    obtain ⟨c, member, rfl, rfl⟩ := edge
    obtain ⟨x, listed, rfl⟩ := List.mem_map.mp ((List.zipIdx_map_fst 0 connections).symm ▸ member)
    have taken : x ∈ f.order := by
      rw [sound.taken]
      exact List.mem_flatMap.mpr ⟨_, ih, mem_below.mpr ⟨listed, rfl⟩⟩
    rw [visits]
    exact List.mem_cons_of_mem _ (List.mem_map.mpr ⟨x, taken, rfl⟩)

end Frontier.Sound

theorem nodup_zipIdx (connections : List Connection) : connections.zipIdx.Nodup := by
  apply List.Nodup.of_map (·.2)
  rw [List.zipIdx_map_snd]
  exact List.nodup_range'

/-- Where a walk stops: it has taken connections from the top down, and another one below them leads to
a name that it has met. -/
structure Stopped (connections : List Connection) (root : String) (order : List Indexed)
    (c : Indexed) : Prop where
  topDown : TopDown [root] (order.map (·.1))
  subset : order ⊆ connections.zipIdx
  listed : c ∈ connections.zipIdx
  fresh : c ∉ order
  parent : c.1.parent ∈ root :: children order
  child : c.1.child ∈ root :: children order

namespace Frontier.Sound

variable {connections : List Connection} {root : String} {visited : List String} {f : Frontier}
  {e : TopologyError}

/-- A visit fails behind those connections below the name that lead to new names. -/
theorem stopped_visit {name : String} {queue : List String} (sound : f.Sound connections root visited)
    (next : f.queue = name :: queue)
    (failed : (below connections.zipIdx name).foldlM (Frontier.take connections.length)
      { f with queue } = .error e) :
    ∃ order c, Stopped connections root order c ∧ e = .notATree order.length connections.length := by
  obtain ⟨before, c, after, g, split, run, last⟩ := foldlM_eq_error failed
  obtain ⟨distinct, fresh, rfl⟩ := (foldlM_take _ _ _ _).mp run
  have within : ∀ x ∈ before ++ c :: after, x ∈ below connections.zipIdx name := split ▸ fun x => id
  have here : c ∈ below connections.zipIdx name := within c (by simp)
  have early : ∀ x ∈ before, x ∈ below connections.zipIdx name := fun x member =>
    within x (List.mem_append_left _ member)
  have known : name ∈ root :: children f.order := by
    rw [← sound.queued, next]
    simp
  have once : (before ++ c :: after).Nodup := by
    rw [← split]
    exact (nodup_zipIdx connections).filter _
  unfold Frontier.take at last
  split at last
  · rename_i met
    cases last
    refine ⟨f.order ++ before, c, ⟨?_, ?_, (mem_below.mp here).1, ?_, ?_, ?_⟩, rfl⟩
    · exact sound.topDown_append next (fun x member => (mem_below.mp (early x member)).2) distinct fresh
    · intro x member
      rcases List.mem_append.mp member with old | new
      · exact sound.order_subset old
      · exact (mem_below.mp (early x new)).1
    · intro member
      rcases List.mem_append.mp member with old | new
      · exact sound.below_fresh next here old
      · exact (List.nodup_append.mp once).2.2 _ new _ List.mem_cons_self rfl
    · rw [(mem_below.mp here).2, children_append, ← List.cons_append]
      exact List.mem_append_left _ known
    · simp only [Frontier.takeAll, List.contains_eq_mem, decide_eq_true_eq, List.mem_append,
        List.mem_reverse, sound.reached, List.mem_cons] at met
      simp only [children_append, List.mem_cons, List.mem_append]
      tauto
  · contradiction

theorem stopped {fuel : Nat} (sound : f.Sound connections root visited)
    (failed : Assembly.explore connections.zipIdx fuel f = .error e) :
    ∃ order c, Stopped connections root order c ∧ e = .notATree order.length connections.length := by
  induction fuel generalizing f visited with
  | zero => contradiction
  | succ fuel ih =>
    unfold Assembly.explore at failed
    split at failed
    · contradiction
    · rename_i name queue next
      rw [List.length_zipIdx] at failed
      cases taken : (below connections.zipIdx name).foldlM (Frontier.take connections.length)
          { f with queue } with
      | error cause =>
        simp only [taken, bind, Except.bind, Except.error.injEq] at failed
        exact failed ▸ sound.stopped_visit next taken
      | ok g =>
        simp only [taken, bind, Except.bind] at failed
        exact ih (sound.visit next taken) failed

end Frontier.Sound

/-! ### The order of a walk -/

/-- An order of all connections, each from the top down, where those below the root come first and
then those below every child, as the children come. -/
structure IsWalk (connections : List Connection) (root : String) (order : List Indexed) : Prop where
  topDown : TopDown [root] (order.map (·.1))
  flat : order = (root :: children order).flatMap (below connections.zipIdx)
  perm : order.Perm connections.zipIdx

/-- Of distinct names only the one asked for brings its list, if it is among them. -/
theorem flatMap_only {α : Type} {names : List String} (distinct : names.Nodup) (name : String)
    (l : List α) :
    (names.flatMap fun other => if other = name then l else []) = if name ∈ names then l else [] := by
  induction names with
  | nil => rfl
  | cons other names ih =>
    obtain ⟨first, distinct⟩ := List.nodup_cons.mp distinct
    rw [List.flatMap_cons, ih distinct]
    by_cases same : other = name
    · simp [same, same ▸ first]
    · simp [same, Ne.symm same]

namespace IsWalk

variable {connections : List Connection} {root : String} {order : List Indexed}

theorem mem_iff (walk : IsWalk connections root order) (c : Connection) :
    c ∈ order.map (·.1) ↔ c ∈ connections := by
  rw [(walk.perm.map _).mem_iff, List.zipIdx_map_fst]

theorem nodup (walk : IsWalk connections root order) : (root :: children order).Nodup := by
  rw [← map_children]
  exact walk.topDown.root_nodup

/-- A name that is neither the root nor a child has nothing below it. -/
theorem parent_mem (walk : IsWalk connections root order) {c : Connection} (member : c ∈ connections) :
    c.parent ∈ root :: children order := by
  have parent := walk.topDown.parent_mem ((walk.mem_iff c).mpr member)
  simpa only [map_children, List.singleton_append] using parent

/-- Nothing hangs below a name that the walk does not meet. -/
theorem below_eq_nil (walk : IsWalk connections root order) {name : String}
    (missing : name ∉ root :: children order) : below connections.zipIdx name = [] := by
  refine List.eq_nil_iff_forall_not_mem.mpr fun c found => missing ?_
  obtain ⟨listed, parent⟩ := mem_below.mp found
  rw [← parent]
  exact walk.parent_mem (List.fst_mem_of_mem_zipIdx listed)

theorem map_below (connections : List Connection) (name : String) :
    (below connections.zipIdx name).map (·.1) = connections.filter (·.parent == name) := by
  conv => rhs; rw [← List.zipIdx_map_fst 0 connections]
  rw [List.filter_map]
  rfl

/-- The connections in the order of the walk: those below the root, then those below each child. -/
theorem flat_filter (walk : IsWalk connections root order) :
    order.map (·.1) =
      (root :: children order).flatMap fun name => connections.filter (·.parent == name) := by
  conv => lhs; rw [walk.flat]
  simp only [List.map_flatMap, map_below]

/-- The walk keeps siblings in the order of their declaration. -/
theorem filter_parent (walk : IsWalk connections root order) (name : String) :
    (order.map (·.1)).filter (·.parent == name) = connections.filter (·.parent == name) := by
  have split : ∀ other, (below connections.zipIdx other).filter (fun c => c.1.parent == name) =
      if other = name then below connections.zipIdx name else [] := by
    intro other
    split
    · rename_i same
      subst same
      exact List.filter_eq_self.mpr fun c member => beq_iff_eq.mpr (mem_below.mp member).2
    · rename_i different
      refine List.filter_eq_nil_iff.mpr fun c member same => different ?_
      exact (mem_below.mp member).2.symm.trans (beq_iff_eq.mp same)
  have ordered : order.filter (fun c => c.1.parent == name) = below connections.zipIdx name := by
    conv => lhs; rw [walk.flat]
    rw [List.filter_flatMap]
    simp only [split]
    rw [flatMap_only walk.nodup]
    split
    · rfl
    · exact (walk.below_eq_nil ‹_›).symm
  calc (order.map (·.1)).filter (·.parent == name)
      = (order.filter fun c => c.1.parent == name).map (·.1) := List.filter_map
    _ = (below connections.zipIdx name).map (·.1) := by rw [ordered]
    _ = connections.filter (·.parent == name) := map_below connections name

end IsWalk

theorem topDownOrder_eq_ok {connections : List Connection} {root : String} {order : List Indexed}
    (walked : topDownOrder connections root = .ok order) : IsWalk connections root order := by
  unfold topDownOrder at walked
  cases explored : explore connections.zipIdx (connections.length + 1) ⟨[root], [], [root]⟩ with
  | error e => simp only [explored, bind, Except.bind] at walked; contradiction
  | ok f =>
    simp only [explored, bind, Except.bind] at walked
    split at walked
    · contradiction
    · rename_i complete
      cases walked
      obtain ⟨visited, sound, done⟩ :=
        Frontier.Sound.start.explore (by simp) explored
      have visits : visited = root :: children f.order := by
        rw [← sound.queued, done, List.append_nil]
      refine ⟨sound.topDown, visits ▸ sound.taken, ?_⟩
      refine (sound.order_nodup.subperm sound.order_subset).perm_of_length_le ?_
      rw [List.length_zipIdx]
      exact Nat.le_of_eq (not_not.mp complete).symm

/-- There is an order exactly if the root and the children are distinct and the root reaches every
parent. -/
theorem topDownOrder_isOk {connections : List Connection} {root : String} :
    (∃ order, topDownOrder connections root = .ok order) ↔
      (root :: connections.map (·.child)).Nodup ∧
      ∀ c ∈ connections, Reaches connections root c.parent := by
  constructor
  · rintro ⟨order, walked⟩
    have walk := topDownOrder_eq_ok walked
    constructor
    · have same : (children order).Perm (connections.map (·.child)) := by
        rw [← children_zipIdx]
        exact walk.perm.map _
      exact ((same.cons root).nodup_iff).mp walk.nodup
    · intro c member
      refine walk.topDown.reaches (fun x found => (walk.mem_iff x).mp found) _ ?_
      rw [map_children]
      exact walk.parent_mem member
  · rintro ⟨distinct, reached⟩
    obtain ⟨f, explored⟩ :=
      Frontier.Sound.start.explore_ok distinct (connections.length + 1)
    obtain ⟨visited, sound, done⟩ := Frontier.Sound.start.explore (by simp) explored
    have all : connections.zipIdx ⊆ f.order := by
      intro c member
      have parent : c.1.parent ∈ visited := by
        refine sound.visited_of_reaches done (reached c.1 ?_)
        exact List.fst_mem_of_mem_zipIdx member
      rw [sound.taken]
      exact List.mem_flatMap.mpr ⟨_, parent, mem_below.mpr ⟨member, rfl⟩⟩
    have length : f.order.length = connections.length := by
      have once : connections.zipIdx.Nodup := by
        refine List.Nodup.of_map (fun c => c.1.child) ?_
        have children := (List.nodup_cons.mp distinct).2
        rwa [← children_zipIdx] at children
      have most := (once.subperm all).length_le
      rw [List.length_zipIdx] at most
      exact Nat.le_antisymm sound.order_length most
    refine ⟨f.order, ?_⟩
    simp [topDownOrder, explored, bind, Except.bind, length, pure, Except.pure]

/-- A walk fails where it meets a name for the second time, or else at its end, with connections left. -/
theorem topDownOrder_failed {connections : List Connection} {root : String} {e : TopologyError}
    (failed : topDownOrder connections root = .error e) :
    (∃ order c, Stopped connections root order c ∧ e = .notATree order.length connections.length) ∨
    ∃ visited f, Frontier.Sound connections root visited f ∧ f.queue = [] ∧
      e = .notATree f.order.length connections.length := by
  unfold topDownOrder at failed
  cases explored : explore connections.zipIdx (connections.length + 1) ⟨[root], [], [root]⟩ with
  | error cause =>
    simp only [explored, bind, Except.bind, Except.error.injEq] at failed
    exact .inl (failed ▸ Frontier.Sound.start.stopped explored)
  | ok f =>
    simp only [explored, bind, Except.bind] at failed
    split at failed
    · cases failed
      obtain ⟨visited, sound, done⟩ := Frontier.Sound.start.explore (by simp) explored
      exact .inr ⟨visited, f, sound, done, rfl⟩
    · contradiction

theorem topDownOrder_error {connections : List Connection} {root : String} {e : TopologyError}
    (failed : topDownOrder connections root = .error e) :
    ∃ k, e = .notATree k connections.length := by
  rcases topDownOrder_failed failed with ⟨order, _, _, same⟩ | ⟨_, f, _, _, same⟩
  · exact ⟨_, same⟩
  · exact ⟨_, same⟩

end Articulation.Assembly
