import Articulation.Proofs.Assembly.Walk
import Mathlib.Order.Lattice.Nat
/-! What the walk from a root comes to on any connections. It ends although nothing bounds its visits,
and there is an order exactly if the connections form a tree. The names of the queue lie on one level or
on two that follow each other, so an order descends level by level. -/
namespace Articulation.Assembly
open Relation

/-! ### The end of a walk -/

/-- How a walk ends that goes on for as long as names are queued. -/
inductive Ends (connections : List Connection) : Frontier → Except TopologyError Frontier → Prop where
  | done {f} : f.queue = [] → Ends connections f (.ok f)
  | stop {f name queue e} : f.queue = name :: queue →
      (below connections.zipIdx name).foldlM (Frontier.take connections.length) { f with queue } =
        .error e → Ends connections f (.error e)
  | visit {f g name queue result} : f.queue = name :: queue →
      (below connections.zipIdx name).foldlM (Frontier.take connections.length) { f with queue } =
        .ok g → Ends connections g result → Ends connections f result

namespace Ends

variable {connections : List Connection} {f g : Frontier}

theorem unique {one other : Except TopologyError Frontier} (ends : Ends connections f one)
    (also : Ends connections f other) : one = other := by
  induction ends with
  | done empty =>
    cases also with
    | done => rfl
    | stop next | visit next => rw [empty] at next; contradiction
  | stop next failed =>
    cases also with
    | done empty => rw [empty] at next; contradiction
    | stop again stopped | visit again stopped =>
      obtain ⟨rfl, rfl⟩ := List.cons.inj (next.symm.trans again)
      rw [failed] at stopped
      cases stopped
      try rfl
  | visit next taken _ ih =>
    cases also with
    | done empty => rw [empty] at next; contradiction
    | stop again failed =>
      obtain ⟨rfl, rfl⟩ := List.cons.inj (next.symm.trans again)
      rw [taken] at failed
      contradiction
    | visit again retaken rest =>
      obtain ⟨rfl, rfl⟩ := List.cons.inj (next.symm.trans again)
      rw [taken] at retaken
      cases retaken
      exact ih rest

/-- What every visit keeps holds where the walk ends. -/
theorem keeps {P : Frontier → Prop}
    (step : ∀ {f g name queue}, f.queue = name :: queue →
      (Assembly.below connections.zipIdx name).foldlM (Frontier.take connections.length) { f with queue } =
        .ok g → P f → P g)
    (ends : Ends connections f (.ok g)) (start : P f) : P g ∧ g.queue = [] := by
  generalize same : Except.ok g = result at ends
  induction ends with
  | done empty =>
    cases same
    exact ⟨start, empty⟩
  | stop => contradiction
  | visit next taken _ ih => exact ih (step next taken start) same

end Ends

/-- As no name is queued twice, the walk ends within its bound. -/
theorem Frontier.Sound.ends {connections : List Connection} {root : String} {visited : List String}
    {f : Frontier} {fuel : Nat} (sound : f.Sound connections root visited)
    (enough : connections.length < fuel + visited.length) :
    Ends connections f (Assembly.explore connections.zipIdx fuel f) := by
  induction fuel generalizing f visited with
  | zero => exact .done (sound.exhausted (by omega))
  | succ fuel ih =>
    unfold Assembly.explore
    split
    · exact .done ‹_›
    · rename_i name queue next
      rw [List.length_zipIdx]
      cases taken : (below connections.zipIdx name).foldlM (Frontier.take connections.length)
          { f with queue } with
      | error e => exact .stop next taken
      | ok g =>
        refine .visit next taken (ih (sound.visit next taken) ?_)
        simp only [List.length_append, List.length_singleton]
        omega

/-- The order of a walk that has taken all connections. -/
def Frontier.complete (total : Nat) (f : Frontier) : Except TopologyError (List Indexed) :=
  if f.order.length = total then .ok f.order else .error (.notATree f.order.length total)

theorem topDownOrder_ends (connections : List Connection) (root : String) :
    ∃ result, Ends connections ⟨[root], [], [root]⟩ result ∧
      topDownOrder connections root = result.bind (Frontier.complete connections.length) := by
  have ends : Ends connections ⟨[root], [], [root]⟩
      (explore connections.zipIdx (connections.length + 1) ⟨[root], [], [root]⟩) :=
    Frontier.Sound.start.ends (by simp)
  refine ⟨_, ends, ?_⟩
  unfold topDownOrder
  cases explore connections.zipIdx (connections.length + 1) ⟨[root], [], [root]⟩ with
  | error e => rfl
  | ok f =>
    by_cases complete : f.order.length = connections.length <;>
      simp [bind, Except.bind, Frontier.complete, complete, pure, Except.pure, throw, throwThe,
        MonadExceptOf.throw]

/-! ### Depths -/

/-- A path of so many connections leads from the root to a name. -/
inductive Away (connections : List Connection) (root : String) : Nat → String → Prop where
  | root : Away connections root 0 root
  | step {n c} : Away connections root n c.parent → c ∈ connections →
      Away connections root (n + 1) c.child

/-- The length of the shortest paths from the root to a name that it reaches. -/
noncomputable def depth (connections : List Connection) (root name : String) : Nat :=
  sInf {n | Away connections root n name}

theorem away_of_reaches {connections : List Connection} {root name : String}
    (path : Reaches connections root name) : ∃ n, Away connections root n name := by
  induction path with
  | refl => exact ⟨0, .root⟩
  | tail _ last ih =>
    obtain ⟨n, away⟩ := ih
    obtain ⟨c, member, rfl, rfl⟩ := last
    exact ⟨n + 1, away.step member⟩

theorem Away.shortest {connections : List Connection} {root name : String} {n : Nat}
    (away : Away connections root n name) :
    Away connections root (depth connections root name) name ∧ depth connections root name ≤ n :=
  ⟨Nat.sInf_mem (s := {n | Away connections root n name}) ⟨n, away⟩, Nat.sInf_le away⟩

/-- No name is met twice on the way from the root, and every connection is met. -/
structure IsTree (connections : List Connection) (root : String) : Prop where
  reached : ∀ c ∈ connections, Reaches connections root c.parent
  distinct : (connections.map (·.child)).Nodup
  rootless : ∀ c ∈ connections, c.child ≠ root

namespace IsTree

variable {connections : List Connection} {root : String}

theorem away_depth (tree : IsTree connections root) {c : Connection} (member : c ∈ connections) :
    Away connections root (depth connections root c.parent) c.parent := by
  obtain ⟨_, away⟩ := away_of_reaches (tree.reached c member)
  exact away.shortest.1

/-- All paths to a child end with its one connection. -/
theorem away_child (tree : IsTree connections root) {c : Connection} (member : c ∈ connections)
    {n : Nat} (away : Away connections root n c.child) :
    ∃ m, n = m + 1 ∧ Away connections root m c.parent := by
  generalize same : c.child = name at away
  cases away with
  | root => exact absurd same (tree.rootless c member)
  | step before found =>
    cases List.inj_on_of_nodup_map tree.distinct member found same
    exact ⟨_, rfl, before⟩

theorem depth_child (tree : IsTree connections root) {c : Connection} (member : c ∈ connections) :
    depth connections root c.child = depth connections root c.parent + 1 := by
  have ⟨shortest, most⟩ := ((tree.away_depth member).step member).shortest
  obtain ⟨m, same, before⟩ := tree.away_child member shortest
  have least := before.shortest.2
  omega

end IsTree

/-! ### Level by level -/

/-- Names are visited and queued in the order of their levels, and those in the queue lie on no more
than two levels. -/
structure Frontier.Levelled (level : String → Nat) (visited : List String) (f : Frontier) : Prop where
  rising : (visited ++ f.queue).Pairwise fun one other => level one ≤ level other
  close : f.queue.Pairwise fun one other => level other ≤ level one + 1

namespace Frontier.Levelled

variable {connections : List Connection} {level : String → Nat} {visited : List String}
  {f g : Frontier}

/-- One visit: the names below the one visited lie behind the whole queue. -/
theorem visit {name : String} {queue : List String} (levelled : f.Levelled level visited)
    (graded : ∀ c ∈ connections, level c.child = level c.parent + 1) (next : f.queue = name :: queue)
    (taken : (below connections.zipIdx name).foldlM (Frontier.take connections.length)
      { f with queue } = .ok g) : g.Levelled level (visited ++ [name]) := by
  -- the queue begins with the name visited, so it reaches from its level to the next
  obtain ⟨-, -, rfl⟩ := (foldlM_take _ _ _ _).mp taken
  obtain ⟨rising, close⟩ := levelled
  rw [next] at rising close
  obtain ⟨near, close⟩ := List.pairwise_cons.mp close
  have behind := (List.pairwise_append.mp rising).2.2
  have ahead : ∀ other ∈ queue, level name ≤ level other :=
    (List.pairwise_cons.mp (List.pairwise_append.mp rising).2.1).1
  have new : ∀ other ∈ children (below connections.zipIdx name), level other = level name + 1 := by
    intro other member
    obtain ⟨c, hanging, rfl⟩ := List.mem_map.mp member
    obtain ⟨listed, parent⟩ := mem_below.mp hanging
    rw [← parent]
    exact graded _ (List.fst_mem_of_mem_zipIdx listed)
  have alike : (children (below connections.zipIdx name)).Pairwise fun one other =>
      level one = level other :=
    List.pairwise_of_forall_mem_list fun one first other second =>
      (new one first).trans (new other second).symm
  constructor
  · have split : visited ++ [name] ++ (queue ++ children (below connections.zipIdx name)) =
        (visited ++ name :: queue) ++ children (below connections.zipIdx name) := by simp
    change (visited ++ [name] ++ (queue ++ children (below connections.zipIdx name))).Pairwise _
    rw [split]
    refine List.pairwise_append.mpr ⟨rising, alike.imp Nat.le_of_eq, fun one old other member => ?_⟩
    rw [new other member]
    rcases List.mem_append.mp old with early | queued
    · exact Nat.le_succ_of_le (behind one early name List.mem_cons_self)
    · rcases List.mem_cons.mp queued with rfl | queued
      · exact Nat.le_succ _
      · exact near one queued
  · change (queue ++ children (below connections.zipIdx name)).Pairwise _
    have level_up := alike.imp fun same => Nat.le_succ_of_le (Nat.le_of_eq same.symm)
    refine List.pairwise_append.mpr ⟨close, level_up, fun one queued other member => ?_⟩
    rw [new other member]
    exact Nat.succ_le_succ (ahead one queued)

end Frontier.Levelled

/-- In a tree an order lists the names level by level. -/
theorem rising_of_topDownOrder {connections : List Connection} {root : String} {order : List Indexed}
    {level : String → Nat} (walked : topDownOrder connections root = .ok order)
    (graded : ∀ c ∈ connections, level c.child = level c.parent + 1) :
    (root :: children order).Pairwise fun one other => level one ≤ level other := by
  obtain ⟨result, ends, whole⟩ := topDownOrder_ends connections root
  rw [walked] at whole
  obtain ⟨f, rfl, complete⟩ := bind_eq_ok.mp whole.symm
  unfold Frontier.complete at complete
  split at complete
  · cases complete
    obtain ⟨⟨visited, sound, levelled⟩, done⟩ := ends.keeps
      (P := fun f => ∃ visited, f.Sound connections root visited ∧ f.Levelled level visited)
      (fun next taken kept => by
        obtain ⟨visited, sound, levelled⟩ := kept
        exact ⟨_, sound.visit next taken, levelled.visit graded next taken⟩)
      ⟨[], .start, by simp, by simp⟩
    have visits : visited ++ f.queue = root :: children f.order := sound.queued
    exact visits ▸ levelled.rising
  · contradiction

/-! ### The order -/

/-- An order holds every connection at its position, parents before what hangs below them, level by
level, and those of one parent together as they were declared. -/
structure IsBreadthFirst (connections : List Connection) (root : String) (order : List Indexed) :
    Prop where
  positions : (order.map (·.2)).Perm (List.range connections.length)
  listed : ∀ c ∈ order, connections[c.2]? = some c.1
  parents : ∀ before c after, order = before ++ c :: after →
    c.1.parent = root ∨ ∃ earlier ∈ before, earlier.1.child = c.1.parent
  levels : order.Pairwise fun c d =>
    depth connections root c.1.child ≤ depth connections root d.1.child
  depths : ∀ c ∈ order, Away connections root (depth connections root c.1.parent) c.1.parent ∧
    depth connections root c.1.child = depth connections root c.1.parent + 1
  siblings : ∀ name, ∃ before after, order = before ++ below connections.zipIdx name ++ after ∧
    ∀ c ∈ before ++ after, c.1.parent ≠ name

namespace IsWalk

variable {connections : List Connection} {root : String} {order : List Indexed}

/-- What hangs below one name stands together. -/
theorem siblings (walk : IsWalk connections root order) (name : String) :
    ∃ before after, order = before ++ below connections.zipIdx name ++ after ∧
      ∀ c ∈ before ++ after, c.1.parent ≠ name := by
  have elsewhere : ∀ names : List String, name ∉ names →
      ∀ c ∈ names.flatMap (below connections.zipIdx), c.1.parent ≠ name := by
    intro names absent c member same
    obtain ⟨other, listed, hanging⟩ := List.mem_flatMap.mp member
    exact absent (same ▸ (mem_below.mp hanging).2 ▸ listed)
  by_cases met : name ∈ root :: children order
  · obtain ⟨before, after, split⟩ := List.append_of_mem met
    have once := walk.nodup
    have flat := walk.flat
    rw [split] at once flat
    rw [List.flatMap_append, List.flatMap_cons, ← List.append_assoc] at flat
    refine ⟨_, _, flat, ?_⟩
    rw [← List.flatMap_append]
    exact elsewhere _ ((List.nodup_cons.mp (List.nodup_middle.mp once)).1)
  · refine ⟨order, [], ?_, ?_⟩
    · rw [walk.below_eq_nil met, List.append_nil, List.append_nil]
    · rw [List.append_nil]
      conv in order => rw [walk.flat]
      exact elsewhere _ met

end IsWalk

theorem isTree_iff {connections : List Connection} {root : String} :
    IsTree connections root ↔ (root :: connections.map (·.child)).Nodup ∧
      ∀ c ∈ connections, Reaches connections root c.parent := by
  rw [List.nodup_cons]
  constructor
  · intro tree
    refine ⟨⟨fun repeated => ?_, tree.distinct⟩, tree.reached⟩
    obtain ⟨c, member, same⟩ := List.mem_map.mp repeated
    exact tree.rootless c member same
  · rintro ⟨⟨rootless, distinct⟩, reached⟩
    exact ⟨reached, distinct, fun c member same => rootless (List.mem_map.mpr ⟨c, member, same⟩)⟩

theorem isBreadthFirst_of_topDownOrder {connections : List Connection} {root : String}
    {order : List Indexed} (walked : topDownOrder connections root = .ok order) :
    IsBreadthFirst connections root order := by
  have tree : IsTree connections root := isTree_iff.mpr (topDownOrder_isOk.mp ⟨order, walked⟩)
  have walk := topDownOrder_eq_ok walked
  have listed : ∀ c ∈ order, connections[c.2]? = some c.1 := fun c member =>
    List.mem_zipIdx_iff_getElem?.mp (walk.perm.mem_iff.mp member)
  have declared : ∀ c ∈ order, c.1 ∈ connections := fun c member =>
    List.mem_of_getElem? (listed c member)
  constructor
  case positions =>
    have positions := walk.perm.map (·.2)
    rwa [List.zipIdx_map_snd, ← List.range_eq_range'] at positions
  case listed => exact listed
  case parents =>
    rintro before c after rfl
    have top := walk.topDown
    rw [List.map_append, List.map_cons] at top
    cases top.drop _ with
    | cons parent _ _ =>
      rw [map_children, List.mem_append, List.mem_singleton] at parent
      exact parent.imp_right List.mem_map.mp
  case levels =>
    have rising := rising_of_topDownOrder walked fun c member => tree.depth_child member
    have below := (List.pairwise_cons.mp rising).2
    rwa [children, List.pairwise_map] at below
  case depths =>
    exact fun c member => ⟨tree.away_depth (declared c member), tree.depth_child (declared c member)⟩
  case siblings => exact walk.siblings

/-- The walk ends on any connections. There is an order exactly if they form a tree, and such an order
is breadth-first; a failure counts all connections. -/
theorem topDownOrder_outcome (connections : List Connection) (root : String) :
    (∃ result, (∀ other, Ends connections ⟨[root], [], [root]⟩ other ↔ other = result) ∧
      topDownOrder connections root = result.bind (Frontier.complete connections.length)) ∧
    ((∃ order, topDownOrder connections root = .ok order) ↔ IsTree connections root) ∧
    (∀ order, topDownOrder connections root = .ok order → IsBreadthFirst connections root order) ∧
    ∀ e, topDownOrder connections root = .error e →
      ∃ reached, e = .notATree reached connections.length := by
  obtain ⟨result, ends, whole⟩ := topDownOrder_ends connections root
  refine ⟨⟨result, fun other => ⟨fun also => also.unique ends, fun same => same ▸ ends⟩, whole⟩,
    ?_, ?_, ?_⟩
  · exact topDownOrder_isOk.trans isTree_iff.symm
  · exact fun order walked => isBreadthFirst_of_topDownOrder walked
  · exact fun e failed => topDownOrder_error failed

/-- Declared first, the connection below a child still comes behind those below the root. -/
example (joint : Joint) (pose : Pose) :
    (topDownOrder [⟨joint, "B", "D", pose⟩, ⟨joint, "A", "B", pose⟩, ⟨joint, "A", "C", pose⟩] "A").map
      (·.map (·.2)) = .ok [1, 2, 0] := by
  rfl

/-- A cycle that the root does not reach is not walked into. -/
example (joint : Joint) (pose : Pose) :
    topDownOrder [⟨joint, "A", "B", pose⟩, ⟨joint, "C", "D", pose⟩, ⟨joint, "D", "C", pose⟩] "A" =
      .error (.notATree 1 3) := by
  rfl

end Articulation.Assembly
