import Articulation.Proofs.Assembly.Acceptance
/-! What a topology error says of the names. Roots are looked for at the ends of connections, and the names
that no connection mentions are counted only once the connections have proved to be a tree; the error is
right about those names that are looked at. The connections reached are counted where the walk stops, so
the count is right exactly if the walk meets no name twice. -/
namespace Articulation.Assembly

variable {bodies : List Body} {names : List String} {connections : List Connection} {root : String}

/-! ### The connections that a root reaches -/

open Classical in
/-- The connections whose parent is reached from the root. -/
noncomputable def reachable (connections : List Connection) (root : String) : List Connection :=
  connections.filter fun c => Reaches connections root c.parent

open Classical in
/-- The same connections with their positions. -/
noncomputable def reachableIndexed (connections : List Connection) (root : String) : List Indexed :=
  connections.zipIdx.filter fun c => Reaches connections root c.1.parent

theorem mem_reachableIndexed {c : Indexed} : c ∈ reachableIndexed connections root ↔
    c ∈ connections.zipIdx ∧ Reaches connections root c.1.parent := by
  simp [reachableIndexed]

theorem map_reachableIndexed (connections : List Connection) (root : String) :
    (reachableIndexed connections root).map (·.1) = reachable connections root := by
  classical
  unfold reachable
  conv => rhs; arg 2; rw [← List.zipIdx_map_fst 0 connections]
  rw [List.filter_map]
  rfl

theorem length_reachable (connections : List Connection) (root : String) :
    (reachable connections root).length = (reachableIndexed connections root).length := by
  rw [← map_reachableIndexed, List.length_map]

theorem children_reachable (connections : List Connection) (root : String) :
    (reachable connections root).map (·.child) = children (reachableIndexed connections root) := by
  rw [← map_reachableIndexed, map_children]

theorem TopDown.reaches_indexed {order : List Indexed} (top : TopDown [root] (order.map (·.1)))
    (listed : order ⊆ connections.zipIdx) :
    ∀ name ∈ root :: children order, Reaches connections root name := by
  rw [← map_children]
  apply top.reaches
  intro c member
  obtain ⟨indexed, taken, rfl⟩ := List.mem_map.mp member
  exact List.fst_mem_of_mem_zipIdx (listed taken)

/-- A count of connections reached is no more than there are, and all of them exactly if no name is met
twice on the way. -/
structure Counts (connections : List Connection) (root : String) (reached : Nat) : Prop where
  le : reached ≤ (reachable connections root).length
  eq_iff : reached = (reachable connections root).length ↔
    (root :: (reachable connections root).map (·.child)).Nodup

/-- A walk stopped midway leaves out at least the connection that it stopped at. -/
theorem Stopped.counts {order : List Indexed} {c : Indexed} (stopped : Stopped connections root order c) :
    Counts connections root order.length := by
  have reached := stopped.topDown.reaches_indexed stopped.subset
  have taken : ∀ x ∈ order, x ∈ reachableIndexed connections root := by
    intro x member
    refine mem_reachableIndexed.mpr ⟨stopped.subset member, reached _ ?_⟩
    have parent := stopped.topDown.parent_mem (List.mem_map_of_mem member)
    rwa [map_children] at parent
  have left : c ∈ reachableIndexed connections root :=
    mem_reachableIndexed.mpr ⟨stopped.listed, reached _ stopped.parent⟩
  have once : (c :: order).Nodup := by
    refine List.nodup_cons.mpr ⟨stopped.fresh, List.Nodup.of_map (fun x => x.1.child) ?_⟩
    rw [← children, ← map_children]
    exact stopped.topDown.nodup
  have fewer : order.length < (reachable connections root).length := by
    have bound := (once.subperm (List.cons_subset.mpr ⟨left, taken⟩)).length_le
    rw [length_reachable]
    exact bound
  refine ⟨Nat.le_of_lt fewer, fun all => absurd all (Nat.ne_of_lt fewer), fun distinct => ?_⟩
  -- The child of `c` is that of a connection taken before, which is another one.
  rw [children_reachable] at distinct
  obtain ⟨rootless, distinct⟩ := List.nodup_cons.mp distinct
  rcases List.mem_cons.mp stopped.child with same | early
  · exact absurd (List.mem_map.mpr ⟨c, left, same⟩) rootless
  · obtain ⟨x, member, same⟩ := List.mem_map.mp early
    have equal : x = c := List.inj_on_of_nodup_map distinct (taken x member) left same
    exact absurd (equal ▸ member) stopped.fresh

/-- A walk that comes to its end has taken all that the root reaches. -/
theorem Frontier.Sound.counts {visited : List String} {f : Frontier}
    (sound : f.Sound connections root visited) (done : f.queue = []) :
    Counts connections root f.order.length := by
  have visits : visited = root :: children f.order := by
    rw [← sound.queued, done, List.append_nil]
  have all : f.order.Perm (reachableIndexed connections root) := by
    refine (List.perm_ext_iff_of_nodup sound.order_nodup ((nodup_zipIdx connections).filter _)).mpr ?_
    intro c
    rw [← reachableIndexed, mem_reachableIndexed, sound.taken]
    constructor
    · intro member
      obtain ⟨name, visit, below⟩ := List.mem_flatMap.mp member
      obtain ⟨listed, rfl⟩ := mem_below.mp below
      rw [visits] at visit
      exact ⟨listed, sound.topDown.reaches_indexed sound.order_subset _ visit⟩
    · rintro ⟨listed, path⟩
      exact List.mem_flatMap.mpr ⟨_, sound.visited_of_reaches done path, mem_below.mpr ⟨listed, rfl⟩⟩
  have length : f.order.length = (reachable connections root).length := by
    rw [length_reachable, all.length_eq]
  refine ⟨Nat.le_of_eq length, fun _ => ?_, fun _ => length⟩
  rw [children_reachable]
  have same : (children f.order).Perm (children (reachableIndexed connections root)) := all.map _
  exact (same.cons root).nodup_iff.mp sound.nodup

theorem topDownOrder_counts {e : TopologyError} (failed : topDownOrder connections root = .error e) :
    ∃ reached, e = .notATree reached connections.length ∧ Counts connections root reached := by
  rcases topDownOrder_failed failed with ⟨order, c, stopped, rfl⟩ | ⟨visited, f, sound, done, rfl⟩
  · exact ⟨_, rfl, stopped.counts⟩
  · exact ⟨_, rfl, sound.counts done⟩

/-! ### Names without a parent -/

/-- The names that no connection has as a child. -/
def parentless (names : List String) (connections : List Connection) : List String :=
  names.filter fun name => !(connections.map (·.child)).contains name

theorem mem_parentless {name : String} :
    name ∈ parentless names connections ↔ name ∈ names ∧ ∀ c ∈ connections, c.child ≠ name := by
  simp [parentless]

/-- The names at an end of some connection. -/
def mentioned (names : List String) (connections : List Connection) : List String :=
  names.filter fun name => connections.any fun c => c.parent == name || c.child == name

theorem mem_mentioned {name : String} : name ∈ mentioned names connections ↔
    name ∈ names ∧ ∃ c ∈ connections, c.parent = name ∨ c.child = name := by
  simp [mentioned]

/-- What an error says is so of these names: that there is no root, that these are the roots, or that
one root is not enough. -/
structure Truthful (names : List String) (connections : List Connection) (e : TopologyError) : Prop where
  noRoot : e = .noRoot ↔ parentless names connections = []
  multipleRoots : (∃ roots, e = .multipleRoots roots) ↔ 2 ≤ (parentless names connections).length
  roots : ∀ roots, e = .multipleRoots roots →
    roots.Pairwise (· < ·) ∧ ∀ name, name ∈ roots ↔ name ∈ parentless names connections
  notATree : (∃ reached total, e = .notATree reached total) ↔
    (parentless names connections).length = 1

namespace Truthful

theorem of_nil (none : parentless names connections = []) : Truthful names connections .noRoot := by
  constructor <;> simp [none]

theorem of_singleton {reached total : Nat} (one : parentless names connections = [root]) :
    Truthful names connections (.notATree reached total) := by
  constructor <;> simp [one]

theorem of_many (distinct : names.Nodup) {roots : List String} (ascending : roots.Pairwise (· ≤ ·))
    (perm : roots.Perm (parentless names connections)) (many : 2 ≤ roots.length) :
    Truthful names connections (.multipleRoots roots) := by
  have length := perm.length_eq
  have once : roots.Nodup := perm.nodup_iff.mpr (distinct.filter _)
  have strict : roots.Pairwise (· < ·) := by
    refine (ascending.and once).imp ?_
    rintro a b ⟨le, different⟩
    exact String.not_le.mp fun ge => different (String.le_antisymm le ge)
  constructor
  · simp only [reduceCtorEq, false_iff]
    intro none
    simp only [none, List.length_nil] at length
    omega
  · simp only [TopologyError.multipleRoots.injEq, exists_eq', true_iff]
    omega
  · rintro _ ⟨⟩
    exact ⟨strict, fun name => perm.mem_iff⟩
  · simp only [reduceCtorEq, exists_false, false_iff]
    omega

/-- Names that the connections do not mention have no parent, so an error that is right with them and
without them leaves none of them. -/
theorem mem_mentioned {e : TopologyError} (all : Truthful names connections e)
    (some : Truthful (mentioned names connections) connections e) {name : String}
    (member : name ∈ names) : name ∈ mentioned names connections := by
  by_contra loose
  have free : name ∈ parentless names connections := by
    refine mem_parentless.mpr ⟨member, fun c found same => loose ?_⟩
    exact Assembly.mem_mentioned.mpr ⟨member, c, found, .inr same⟩
  have left : name ∉ parentless (mentioned names connections) connections :=
    fun found => loose (mem_parentless.mp found).1
  cases e with
  | noRoot => exact List.not_mem_nil (all.noRoot.mp rfl ▸ free)
  | multipleRoots roots =>
    have listed := ((all.roots roots rfl).2 name).mpr free
    exact left (((some.roots roots rfl).2 name).mp listed)
  | notATree reached total =>
    have part : (parentless (mentioned names connections) connections).Sublist
        (parentless names connections) := List.filter_sublist.filter _
    have one := all.notATree.mp ⟨reached, total, rfl⟩
    have same := part.eq_of_length ((some.notATree.mp ⟨reached, total, rfl⟩).trans one.symm)
    exact left (same ▸ free)

end Truthful

/-! ### How an assembly fails -/

/-- The connections are a tree by themselves: none leads to the root, no two to one name, and the root
reaches all. -/
structure Branching (connections : List Connection) (root : String) : Prop where
  distinct : (root :: connections.map (·.child)).Nodup
  reached : ∀ c ∈ connections, Reaches connections root c.parent

theorem Branching.findRoot (tree : Branching connections root) (some : connections ≠ []) :
    findRoot connections = .ok root := by
  refine findRoot_of_reached some (fun c member same => ?_) tree.reached
  exact (List.nodup_cons.mp tree.distinct).1 (List.mem_map.mpr ⟨c, member, same⟩)

theorem rootCandidates_perm (distinct : names.Nodup) (known : ∀ c ∈ connections, IsKnown names c) :
    (rootCandidates connections).Perm (parentless (mentioned names connections) connections) := by
  have once : (parentless (mentioned names connections) connections).Nodup :=
    (distinct.filter _).filter _
  refine (List.perm_ext_iff_of_nodup (nodup_rootCandidates _) once).mpr fun name => ?_
  rw [mem_rootCandidates, mem_parentless, mem_mentioned]
  constructor
  · rintro ⟨⟨c, member, rfl⟩, childless⟩
    exact ⟨⟨(known c member).1, c, member, .inl rfl⟩, childless⟩
  · rintro ⟨⟨_, c, member, ends⟩, childless⟩
    exact ⟨⟨c, member, ends.resolve_right (childless c member)⟩, childless⟩

theorem findRoot_truthful (distinct : names.Nodup) (known : ∀ c ∈ connections, IsKnown names c)
    {e : TopologyError} (failed : findRoot connections = .error e) :
    Truthful (mentioned names connections) connections e := by
  have perm := rootCandidates_perm distinct known
  unfold findRoot at failed
  split at failed
  · rename_i none
    cases failed
    rw [none] at perm
    exact .of_nil perm.nil_eq.symm
  · contradiction
  · rename_i many single
    cases failed
    refine .of_many (distinct.filter _) (sortedNames_pairwise _) perm ?_
    match rootCandidates connections, many, single with
    | [], many, _ => exact absurd rfl many
    | [root], _, single => exact absurd rfl (single root)
    | _ :: _ :: _, _, _ => simp

theorem soleBody_truthful (distinct : names.Nodup) {e : TopologyError}
    (failed : soleBody names = .error e) : Truthful names [] e := by
  have all : parentless names [] = names := by simp [parentless]
  unfold soleBody at failed
  split at failed
  · cases failed
    exact .of_nil all
  · contradiction
  · rename_i many single
    cases failed
    refine .of_many distinct (sortedNames_pairwise _) ?_ ?_
    · rw [all]
      exact sortedNames_perm names
    · rw [(sortedNames_perm names).length_eq]
      match names, many, single with
      | [], many, _ => exact absurd rfl many
      | [root], _, single => exact absurd rfl (single root)
      | _ :: _ :: _, _, _ => simp

namespace Planned

variable {p : Plan}

/-- The root and the names that the plan does not meet are those without a parent. -/
theorem stranded_perm (ready : Planned bodies connections p) :
    (p.root :: p.stranded bodies).Perm (parentless (bodies.map Body.name) connections) := by
  have rootless : p.root ∉ children p.order := (List.nodup_cons.mp ready.walk.nodup).1
  have once : (p.root :: p.stranded bodies).Nodup := by
    refine List.nodup_cons.mpr ⟨fun member => ?_, ready.distinct.filter _⟩
    simpa using (List.mem_filter.mp member).2
  refine (List.perm_ext_iff_of_nodup once (ready.distinct.filter _)).mpr fun name => ?_
  have met : (∀ c ∈ connections, c.child ≠ name) ↔ name ∉ children p.order := by
    rw [ready.mem_children]
    simp
  rw [← parentless, mem_parentless, met, Plan.stranded, List.mem_cons, List.mem_filter]
  simp only [List.contains_eq_mem, List.mem_cons, Bool.not_eq_true', decide_eq_false_iff_not, not_or]
  constructor
  · rintro (rfl | ⟨member, _, unmet⟩)
    · exact ⟨ready.root, rootless⟩
    · exact ⟨member, unmet⟩
  · rintro ⟨member, unmet⟩
    by_cases same : name = p.root
    · exact .inl same
    · exact .inr ⟨member, same, unmet⟩

end Planned

theorem rootOf_ne_notATree {reached total : Nat} :
    rootOf names connections ≠ .error (.notATree reached total) := by
  unfold rootOf soleBody findRoot
  split <;> split <;> simp

/-- A plan of known names fails as there is no root or as there is no order from the root. -/
theorem plan_error (distinct : (bodies.map Body.name).Nodup)
    (known : ∀ c ∈ connections, IsKnown (bodies.map Body.name) c) {e : AssemblyError}
    (failed : plan bodies connections = .error e) :
    ∃ cause, e = .topology cause ∧
      (rootOf (bodies.map Body.name) connections = .error cause ∨
        ∃ root, rootOf (bodies.map Body.name) connections = .ok root ∧
          topDownOrder connections root = .error cause) := by
  rw [plan_of_known distinct known] at failed
  split at failed
  · cases failed
    exact ⟨_, rfl, .inl ‹_›⟩
  · split at failed
    · cases failed
      exact ⟨_, rfl, .inr ⟨_, ‹_›, ‹_›⟩⟩
    · contradiction

/-- Without connections there is an order, and it is empty. -/
theorem ne_nil_of_failed {e : TopologyError} (failed : topDownOrder connections root = .error e) :
    connections ≠ [] := by
  rintro rfl
  cases failed

theorem rootOf_eq_findRoot (some : connections ≠ []) :
    rootOf names connections = findRoot connections := by
  simp [rootOf, some]

theorem parentless_of_findRoot (distinct : names.Nodup) (known : ∀ c ∈ connections, IsKnown names c)
    (found : findRoot connections = .ok root) :
    parentless (mentioned names connections) connections = [root] := by
  have perm := rootCandidates_perm distinct known
  unfold findRoot at found
  split at found
  · contradiction
  · rename_i single
    cases found
    rw [single] at perm
    exact List.perm_singleton.mp perm.symm
  · contradiction

/-- An assembly of known names fails over its topology: connections that are a tree leave out a name, and
others fail at what they mention. -/
theorem failure_cases {exclusions : List (String × String)} {e : AssemblyError}
    (distinct : (bodies.map Body.name).Nodup)
    (known : ∀ c ∈ connections, IsKnown (bodies.map Body.name) c)
    (failed : (assembleInto exclusions bodies connections).1 = .error e) :
    ∃ cause, e = .topology cause ∧
      ((∃ root, Branching connections root) ∧ Truthful (bodies.map Body.name) connections cause ∨
        (¬ ∃ root, Branching connections root) ∧
          Truthful (mentioned (bodies.map Body.name) connections) connections cause) := by
  rw [assembleInto_fst] at failed
  cases stands : plan bodies connections with
  | ok p =>
    have ready := Assembly.planned stands
    simp only [stands, erect_eq stands] at failed
    split at failed
    · contradiction
    · rename_i stranded
      cases failed
      obtain ⟨_, _, _, ordered⟩ := plan_eq_ok.mp stands
      obtain ⟨once, reached⟩ := topDownOrder_isOk.mp ⟨_, ordered⟩
      refine ⟨_, rfl, .inl ⟨⟨p.root, once, reached⟩, ?_⟩⟩
      refine .of_many distinct (sortedNames_pairwise _) ?_ ?_
      · exact (sortedNames_perm _).trans ready.stranded_perm
      · rw [(sortedNames_perm _).length_eq, List.length_cons]
        have left := List.length_pos_of_ne_nil stranded
        omega
  | error e =>
    simp only [stands] at failed
    cases failed
    obtain ⟨cause, rfl, rootless | ⟨root, rooted, stuck⟩⟩ := plan_error distinct known stands
    · by_cases some : connections = []
      · subst some
        have alone : Branching [] "" := ⟨List.nodup_singleton _, by simp⟩
        exact ⟨cause, rfl, .inl ⟨⟨_, alone⟩, soleBody_truthful distinct rootless⟩⟩
      · rw [rootOf_eq_findRoot some] at rootless
        refine ⟨cause, rfl, .inr ⟨?_, findRoot_truthful distinct known rootless⟩⟩
        rintro ⟨root, tree⟩
        cases rootless.symm.trans (tree.findRoot some)
    · have some := ne_nil_of_failed stuck
      rw [rootOf_eq_findRoot some] at rooted
      obtain ⟨reached, rfl, _⟩ := topDownOrder_counts stuck
      refine ⟨_, rfl, .inr ⟨?_, .of_singleton (parentless_of_findRoot distinct known rooted)⟩⟩
      rintro ⟨other, tree⟩
      cases rooted.symm.trans (tree.findRoot some)
      obtain ⟨order, walked⟩ := topDownOrder_isOk.mpr ⟨tree.distinct, tree.reached⟩
      cases stuck.symm.trans walked

theorem failure_counts {exclusions : List (String × String)} {reached total : Nat}
    (distinct : (bodies.map Body.name).Nodup)
    (known : ∀ c ∈ connections, IsKnown (bodies.map Body.name) c)
    (failed : (assembleInto exclusions bodies connections).1 =
      .error (.topology (.notATree reached total))) :
    total = connections.length ∧
      ∃ root, parentless (mentioned (bodies.map Body.name) connections) connections = [root] ∧
        Counts connections root reached := by
  rw [assembleInto_fst] at failed
  cases stands : plan bodies connections with
  | ok p =>
    simp only [stands, erect_eq stands] at failed
    split at failed <;> cases failed
  | error e =>
    simp only [stands] at failed
    cases failed
    obtain ⟨_, same, rootless | ⟨root, rooted, stuck⟩⟩ := plan_error distinct known stands
    · cases same
      exact absurd rootless rootOf_ne_notATree
    · cases same
      rw [rootOf_eq_findRoot (ne_nil_of_failed stuck)] at rooted
      obtain ⟨_, same, counts⟩ := topDownOrder_counts stuck
      cases same
      exact ⟨rfl, root, parentless_of_findRoot distinct known rooted, counts⟩

/-- How far a failure over the topology can be believed. It is right about all names if the connections are
a tree by themselves or mention all names; otherwise it is right about the names they mention, and wrong
about all of them. The total is that of the connections; the number reached is no more than the root
reaches, and is that number exactly if no reached connection leads to the root or where another one
leads. -/
theorem assembleInto_failure (exclusions : List (String × String)) (bodies : List Body)
    (connections : List Connection) (e : AssemblyError) (distinct : (bodies.map Body.name).Nodup)
    (known : ∀ c ∈ connections, IsKnown (bodies.map Body.name) c)
    (failed : (assembleInto exclusions bodies connections).1 = .error e) :
    ∃ cause, e = .topology cause ∧
      ((∃ root, Branching connections root) → Truthful (bodies.map Body.name) connections cause) ∧
      ((¬ ∃ root, Branching connections root) →
        Truthful (mentioned (bodies.map Body.name) connections) connections cause) ∧
      (Truthful (bodies.map Body.name) connections cause ↔
        (∃ root, Branching connections root) ∨
          ∀ name ∈ bodies.map Body.name, name ∈ mentioned (bodies.map Body.name) connections) ∧
      ∀ reached total, cause = .notATree reached total → total = connections.length ∧
        ∃ root, parentless (mentioned (bodies.map Body.name) connections) connections = [root] ∧
          reached ≤ (reachable connections root).length ∧
          (reached = (reachable connections root).length ↔
            (root :: (reachable connections root).map (·.child)).Nodup) := by
  obtain ⟨cause, rfl, cases⟩ := failure_cases distinct known failed
  have counted : ∀ reached total, cause = .notATree reached total → total = connections.length ∧
      ∃ root, parentless (mentioned (bodies.map Body.name) connections) connections = [root] ∧
        reached ≤ (reachable connections root).length ∧
        (reached = (reachable connections root).length ↔
          (root :: (reachable connections root).map (·.child)).Nodup) := by
    rintro reached total rfl
    obtain ⟨same, root, single, counts⟩ := failure_counts distinct known failed
    exact ⟨same, root, single, counts.le, counts.eq_iff⟩
  refine ⟨cause, rfl, ?_, ?_, ⟨?_, ?_⟩, counted⟩
  · intro tree
    exact (cases.resolve_right fun other => other.1 tree).2
  · intro none
    exact (cases.resolve_left fun other => none other.1).2
  · intro right
    rcases cases with ⟨tree, _⟩ | ⟨_, some⟩
    · exact .inl tree
    · exact .inr fun name member => right.mem_mentioned some member
  · rcases cases with ⟨_, right⟩ | ⟨none, some⟩
    · exact fun _ => right
    · rintro (tree | all)
      · exact absurd tree none
      · have every : mentioned (bodies.map Body.name) connections = bodies.map Body.name :=
          List.filter_eq_self.mpr fun name member => (List.mem_filter.mp (all name member)).2
        exact every ▸ some

/-- Two bodies, each the child of the other. -/
def crossed : List Connection := [hinge "1" "a" "b", hinge "2" "b" "a"]

theorem crossed_failure : (assembleInto [] (["a", "b", "x"].map Body.ofName) crossed).1 =
    .error (.topology .noRoot) :=
  (map_eq_error (f := Body.name)).mp (by decide +kernel)

/-- A third body next to them has no parent, and is not mentioned. -/
theorem assembleInto_failure_crossed :
    (assembleInto [] (["a", "b", "x"].map Body.ofName) crossed).1 = .error (.topology .noRoot) ∧
      ¬ Truthful ["a", "b", "x"] crossed .noRoot ∧ Truthful ["a", "b"] crossed .noRoot := by
  obtain ⟨_, same, _, apart, exactly, _⟩ := assembleInto_failure [] (["a", "b", "x"].map Body.ofName)
    crossed _ (by decide) (by unfold IsKnown; decide) crossed_failure
  cases same
  have wrong : ¬ Truthful ["a", "b", "x"] crossed .noRoot := by
    intro right
    have none := right.noRoot.mp rfl
    revert none
    decide
  refine ⟨crossed_failure, wrong, ?_⟩
  exact apart fun tree => wrong (exactly.mpr (.inl tree))

/-- Two connections between the same two bodies. -/
def doubled : List Connection := [hinge "1" "r" "a", hinge "2" "r" "a"]

theorem reachable_doubled : reachable doubled "r" = doubled := by
  unfold reachable
  have parent : ∀ c ∈ doubled, c.parent = "r" := by decide
  have here : Reaches doubled "r" "r" := .refl
  refine List.filter_eq_self.mpr fun c member => ?_
  rw [parent c member]
  simpa using here

/-- One connection counts as reached where both are, and a body is the child of no joint where all are
said to be children. -/
theorem failures_misreported :
    ((assembleInto [] (["r", "a"].map Body.ofName) doubled).1 =
        .error (.topology (.notATree 1 2)) ∧
      parentless ["r", "a"] doubled = ["r"] ∧ (reachable doubled "r").length = 2) ∧
    (assembleInto [] (["a", "b", "x"].map Body.ofName) crossed).1 = .error (.topology .noRoot) ∧
      parentless ["a", "b", "x"] crossed = ["x"] := by
  refine ⟨⟨?_, by decide, by rw [reachable_doubled]; rfl⟩, crossed_failure, by decide⟩
  exact (map_eq_error (f := Body.name)).mp (by decide +kernel)

end Articulation.Assembly
