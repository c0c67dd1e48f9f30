import Articulation.Proofs.Assembly.Acceptance
import Articulation.Proofs.Assembly.Tree
import Articulation.Proofs.Rose.Reordering
/-! What the order of declaration decides in an assembly. Bodies may be declared in any order.
Connections in another order build the same tree up to the order of siblings, or fail alike; if those
of every parent keep their order, tree and exclusions are the same. -/
namespace Articulation

/-- Errors of one kind: several roots must have the same names, and where there is no tree the number of
all connections must be the same. -/
inductive AssemblyError.SameKind : AssemblyError → AssemblyError → Prop where
  | duplicateLink {name other} : SameKind (.duplicateLink name) (.duplicateLink other)
  | unknownLink {joint link other missing} :
      SameKind (.unknownLink joint link) (.unknownLink other missing)
  | noRoot : SameKind (.topology .noRoot) (.topology .noRoot)
  | multipleRoots {names} :
      SameKind (.topology (.multipleRoots names)) (.topology (.multipleRoots names))
  | notATree {reached other total} :
      SameKind (.topology (.notATree reached total)) (.topology (.notATree other total))

theorem AssemblyError.SameKind.refl (e : AssemblyError) : e.SameKind e := by
  cases e with
  | duplicateLink => exact .duplicateLink
  | unknownLink => exact .unknownLink
  | topology cause =>
    cases cause with
    | noRoot => exact .noRoot
    | multipleRoots => exact .multipleRoots
    | notATree => exact .notATree

namespace Assembly

/-- Results that are both good and related, or both errors of one kind. -/
inductive Alike {α : Type} (related : α → α → Prop) :
    Except AssemblyError α → Except AssemblyError α → Prop where
  | ok {result other} : related result other → Alike related (.ok result) (.ok other)
  | error {e f} : AssemblyError.SameKind e f → Alike related (.error e) (.error f)

namespace Alike

variable {α : Type} {related : α → α → Prop} {first second : Except AssemblyError α}

theorem of_ok {result : α} (alike : Alike related first second) (good : first = .ok result) :
    ∃ other, second = .ok other ∧ related result other := by
  cases alike with
  | ok same =>
    cases good
    exact ⟨_, rfl, same⟩
  | error same => contradiction

theorem of_error {e : AssemblyError} (alike : Alike related first second) (failed : first = .error e) :
    ∃ f, second = .error f ∧ AssemblyError.SameKind e f := by
  cases alike with
  | ok same => contradiction
  | error same =>
    cases failed
    exact ⟨_, rfl, same⟩

end Alike

variable {bodies others : List Body} {connections permuted : List Connection}

/-! ### Growth -/

theorem find?_isNamed_perm (distinct : (bodies.map Body.name).Nodup) (same : bodies.Perm others)
    (name : String) : bodies.find? (isNamed name) = others.find? (isNamed name) := by
  symm
  cases found : bodies.find? (isNamed name) with
  | none =>
    refine List.find?_eq_none.mpr fun body member => ?_
    exact List.find?_eq_none.mp found body (same.mem_iff.mpr member)
  | some body =>
    obtain rfl := isNamed_iff.mp (List.find?_some found)
    exact find?_isNamed ((same.map Body.name).nodup_iff.mp distinct)
      (same.mem_iff.mp (List.mem_of_find?_eq_some found))

theorem bodyOf_perm (distinct : (bodies.map Body.name).Nodup) (same : bodies.Perm others) :
    bodyOf bodies = bodyOf others := by
  funext name
  rw [bodyOf, bodyOf, find?_isNamed_perm distinct same]

theorem reordered_hung (c : Connection) {body other : Body} (same : Rose.Reordered body other) :
    Rose.Reordered (hung c body) (hung c other) := by
  cases same with
  | node below perm => exact .node below perm

variable {met known : List String} {order other : List Connection}

/-- Orders that hold the same connections of every parent grow the same tree, up to the order of
siblings. -/
theorem grown_reordered (bodies : List Body) (top : TopDown met order) (also : TopDown known other)
    (below : ∀ name, (order.filter (·.parent == name)).Perm (other.filter (·.parent == name)))
    (name : String) : Rose.Reordered (grown bodies order name) (grown bodies other name) := by
  induction name using top.induction with
  | step name ih =>
    rw [grown_eq top, grown_eq also]
    have branches : List.Forall₂ Rose.Reordered
        ((order.filter (·.parent == name)).map (branch bodies order))
        ((order.filter (·.parent == name)).map (branch bodies other)) := by
      refine List.forall₂_map_left_iff.mpr (List.forall₂_map_right_iff.mpr ?_)
      refine List.forall₂_same.mpr fun c found => reordered_hung c ?_
      obtain ⟨member, parent⟩ := List.mem_filter.mp found
      exact ih c member (beq_iff_eq.mp parent)
    have kept : List.Forall₂ Rose.Reordered (bodyOf bodies name).children
        (bodyOf bodies name).children := List.forall₂_same.mpr fun child _ => .refl child
    exact .node (List.rel_append branches kept) (((below name).map _).append_right _)

/-- Orders that hold the same connections of every parent in the same order grow the same tree. -/
theorem grown_congr (bodies : List Body) (top : TopDown met order) (also : TopDown known other)
    (below : ∀ name, order.filter (·.parent == name) = other.filter (·.parent == name))
    (name : String) : grown bodies order name = grown bodies other name := by
  induction name using top.induction with
  | step name ih =>
    rw [grown_eq top, grown_eq also, ← below name]
    refine congrArg (fun branches => Rose.node _ (branches ++ _)) (List.map_congr_left fun c found => ?_)
    obtain ⟨member, parent⟩ := List.mem_filter.mp found
    exact congrArg (hung c) (ih c member (beq_iff_eq.mp parent))

theorem grown_perm (distinct : (bodies.map Body.name).Nodup) (same : bodies.Perm others)
    (order : List Connection) (name : String) : grown bodies order name = grown others order name := by
  induction order generalizing name with
  | nil => rw [grown, grown, bodyOf_perm distinct same]
  | cons c later ih => rw [grown, grown, ih name, ih c.child]

/-! ### Plans -/

theorem reaches_perm (perm : connections.Perm permuted) (root name : String) :
    Reaches connections root name ↔ Reaches permuted root name := by
  have same : Leads connections = Leads permuted := by
    funext parent child
    simp only [Leads, perm.mem_iff]
  rw [Reaches, Reaches, same]

/-- Walks from the same root both meet all connections or both fail for no tree of so many. -/
theorem topDownOrder_perm (perm : connections.Perm permuted) (root : String) :
    (∃ order other, topDownOrder connections root = .ok order ∧ topDownOrder permuted root = .ok other) ∨
      ∃ reached other total, topDownOrder connections root = .error (.notATree reached total) ∧
        topDownOrder permuted root = .error (.notATree other total) := by
  have accepted : (∃ order, topDownOrder connections root = .ok order) ↔
      ∃ order, topDownOrder permuted root = .ok order := by
    simp only [topDownOrder_isOk, perm.mem_iff, reaches_perm perm,
      ((perm.map (·.child)).cons root).nodup_iff]
  cases first : topDownOrder connections root with
  | ok order =>
    obtain ⟨other, second⟩ := accepted.mp ⟨order, first⟩
    exact .inl ⟨order, other, rfl, second⟩
  | error cause =>
    cases second : topDownOrder permuted root with
    | ok order =>
      obtain ⟨order, found⟩ := accepted.mpr ⟨order, second⟩
      cases first.symm.trans found
    | error cause =>
      obtain ⟨reached, rfl⟩ := topDownOrder_error first
      obtain ⟨other, rfl⟩ := topDownOrder_error second
      exact .inr ⟨reached, other, connections.length, rfl, by rw [perm.length_eq]⟩

theorem known_perm {names other : List String} (same : names.Perm other)
    (perm : connections.Perm permuted) :
    (∀ c ∈ connections, IsKnown names c) ↔ ∀ c ∈ permuted, IsKnown other c := by
  simp only [IsKnown, perm.mem_iff, same.mem_iff]

/-- Declared in any order, the same bodies and connections have plans from the same root or none. -/
theorem plan_perm (declared : bodies.Perm others) (connected : connections.Perm permuted) :
    Alike (fun p q : Plan => p.root = q.root) (plan bodies connections) (plan others permuted) := by
  have names := declared.map Body.name
  have ends := known_perm names connected
  by_cases distinct : (bodies.map Body.name).Nodup
  · have distinctToo := names.nodup_iff.mp distinct
    by_cases known : ∀ c ∈ connections, IsKnown (bodies.map Body.name) c
    · rw [plan_of_known distinct known, plan_of_known distinctToo (ends.mp known),
        ← rootOf_congr names connected]
      cases rootOf (bodies.map Body.name) connections with
      | error cause => exact .error (.refl _)
      | ok root =>
        rcases topDownOrder_perm connected root with ⟨_, _, first, second⟩ | ⟨_, _, _, first, second⟩
        · simp only [first, second]
          exact .ok rfl
        · simp only [first, second]
          exact .error .notATree
    · obtain ⟨_, _, first⟩ := exists_firstUnknown.mpr (by simpa using known)
      obtain ⟨_, _, second⟩ := exists_firstUnknown.mpr (by simpa using mt ends.mpr known)
      rw [plan_of_unknown distinct first, plan_of_unknown distinctToo second]
      exact .error .unknownLink
  · obtain ⟨_, first⟩ := exists_firstRepeated.mpr distinct
    obtain ⟨_, second⟩ := exists_firstRepeated.mpr (mt names.nodup_iff.mpr distinct)
    rw [plan_of_repeated first, plan_of_repeated second]
    exact .error .duplicateLink

/-! ### Trees -/

section

variable {p q : Plan} (stands : plan bodies connections = .ok p) (also : plan others permuted = .ok q)
  (root : p.root = q.root) (declared : bodies.Perm others) (connected : connections.Perm permuted)

include stands also root declared connected

theorem stranded_perm : (p.stranded bodies).Perm (q.stranded others) := by
  have ready := planned stands
  have readyToo := planned also
  have same : ∀ name, name ∈ children p.order ↔ name ∈ children q.order := by
    intro name
    rw [ready.mem_children, readyToo.mem_children]
    exact (connected.map (·.child)).mem_iff
  have met : ∀ name, (p.root :: children p.order).contains name =
      (q.root :: children q.order).contains name := by
    intro name
    rw [Bool.eq_iff_iff]
    simp only [List.contains_eq_mem, decide_eq_true_eq, List.mem_cons, same, root]
  simp only [Plan.stranded, met]
  exact (declared.map Body.name).filter _

/-- Two plans from the same root build the same tree, up to the order of siblings, or fail alike. -/
theorem erect_perm :
    Alike Rose.Reordered (p.erect bodies connections) (q.erect others permuted) := by
  have ready := planned stands
  have readyToo := planned also
  have stranded := stranded_perm stands also root declared connected
  rw [erect_eq stands, erect_eq also]
  cases missed : p.stranded bodies with
  | nil =>
    rw [missed] at stranded
    rw [← stranded.nil_eq, ← root, ← grown_perm ready.distinct declared]
    refine .ok (grown_reordered bodies ready.walk.topDown readyToo.walk.topDown (fun name => ?_) p.root)
    rw [ready.walk.filter_parent, readyToo.walk.filter_parent]
    exact connected.filter _
  | cons name names =>
    rw [missed] at stranded
    cases others : q.stranded others with
    | nil =>
      rw [others] at stranded
      cases stranded.eq_nil
    | cons other rest =>
      rw [others] at stranded
      simp only [← root, sortedNames_congr (stranded.cons p.root)]
      exact .error .multipleRoots

/-- Plans that hold the connections of every parent in the same order grow the same tree and exclude the
same pairs. -/
theorem erect_congr
    (below : ∀ name, connections.filter (·.parent == name) = permuted.filter (·.parent == name)) :
    (∀ tree, p.erect bodies connections = .ok tree → q.erect others permuted = .ok tree) ∧
      p.pairs = q.pairs := by
  have ready := planned stands
  have readyToo := planned also
  have siblings : ∀ name, p.sequence.filter (·.parent == name) = q.sequence.filter (·.parent == name) := by
    intro name
    rw [Plan.sequence, Plan.sequence, ready.walk.filter_parent, readyToo.walk.filter_parent, below]
  have same : ∀ bodies, grown bodies p.sequence p.root = grown bodies q.sequence q.root := by
    intro bodies
    rw [← root]
    exact grown_congr bodies ready.walk.topDown readyToo.walk.topDown siblings p.root
  constructor
  · intro tree built
    have stranded := stranded_perm stands also root declared connected
    rw [erect_eq stands] at built
    rw [erect_eq also, ← grown_perm ready.distinct declared, ← same]
    cases missed : p.stranded bodies with
    | nil =>
      rw [missed] at stranded built
      rw [← stranded.nil_eq]
      exact built
    | cons name names =>
      rw [missed] at built
      contradiction
  · -- The pairs are the edges of the tree that the connections grow on bare names.
    have bare : ∀ body ∈ ([] : List Body), body.children = [] := by simp
    have first : (grown [] p.sequence p.root).edges = _ := edges_grown ready.walk bare
    have second : (grown [] q.sequence q.root).edges = _ := edges_grown readyToo.walk bare
    rw [same, second] at first
    simpa only [Plan.pairs, List.map_map, Function.comp_def] using first.symm

end

theorem assembleInto_fst_perm (exclusions : List (String × String)) (declared : bodies.Perm others)
    (connected : connections.Perm permuted) :
    Alike Rose.Reordered (assembleInto exclusions bodies connections).1
      (assembleInto exclusions others permuted).1 := by
  have plans := plan_perm declared connected
  rw [assembleInto_fst, assembleInto_fst]
  cases stands : plan bodies connections with
  | error e =>
    obtain ⟨f, also, same⟩ := plans.of_error stands
    rw [also]
    exact .error same
  | ok p =>
    obtain ⟨q, also, root⟩ := plans.of_ok stands
    rw [also]
    exact erect_perm stands also root declared connected

theorem assembleInto_congr {exclusions pairs : List (String × String)} {tree : Body}
    (declared : bodies.Perm others) (connected : connections.Perm permuted)
    (below : ∀ name, connections.filter (·.parent == name) = permuted.filter (·.parent == name))
    (assembled : assembleInto exclusions bodies connections = (.ok tree, pairs)) :
    assembleInto exclusions others permuted = (.ok tree, pairs) := by
  obtain ⟨p, stands, built, rfl⟩ := assembleInto_eq_ok assembled
  obtain ⟨q, also, root⟩ := (plan_perm declared connected).of_ok stands
  obtain ⟨same, pairs⟩ := erect_congr stands also root declared connected below
  rw [assembleInto, also, pairs]
  exact congrArg (·, _) (same tree built)

/-- The order of declaration makes no difference to an assembly but for the order of siblings: in any
order the same bodies and connections build the same tree up to the order of children, or fail with
errors of one kind. Where the connections of every parent keep their order, tree and exclusions are the
same. -/
theorem assembleInto_perm (exclusions : List (String × String)) (declared : bodies.Perm others)
    (connected : connections.Perm permuted) :
    ((∃ tree, (assembleInto exclusions bodies connections).1 = .ok tree) ↔
      ∃ tree, (assembleInto exclusions others permuted).1 = .ok tree) ∧
    (∀ tree other, (assembleInto exclusions bodies connections).1 = .ok tree →
      (assembleInto exclusions others permuted).1 = .ok other → Rose.Reordered tree other) ∧
    (∀ e f, (assembleInto exclusions bodies connections).1 = .error e →
      (assembleInto exclusions others permuted).1 = .error f → AssemblyError.SameKind e f) ∧
    ((∀ name, connections.filter (·.parent == name) = permuted.filter (·.parent == name)) →
      ∀ tree pairs, assembleInto exclusions bodies connections = (.ok tree, pairs) ↔
        assembleInto exclusions others permuted = (.ok tree, pairs)) := by
  have alike := assembleInto_fst_perm exclusions declared connected
  have back := assembleInto_fst_perm exclusions declared.symm connected.symm
  refine ⟨⟨?_, ?_⟩, ?_, ?_, fun below tree pairs => ⟨?_, ?_⟩⟩
  · rintro ⟨tree, built⟩
    obtain ⟨other, found, _⟩ := alike.of_ok built
    exact ⟨other, found⟩
  · rintro ⟨other, built⟩
    obtain ⟨tree, found, _⟩ := back.of_ok built
    exact ⟨tree, found⟩
  · intro tree other first second
    obtain ⟨found, same, reordered⟩ := alike.of_ok first
    cases second.symm.trans same
    exact reordered
  · intro e f first second
    obtain ⟨found, same, kind⟩ := alike.of_error first
    cases second.symm.trans same
    exact kind
  · exact assembleInto_congr declared connected below
  · exact assembleInto_congr declared.symm connected.symm fun name => (below name).symm

theorem assembleInto_perm_siblings :
    ∃ tree other,
      assembleInto [] (["A", "B", "C", "D"].map Body.ofName)
        [hinge "b" "A" "B", hinge "c" "A" "C", hinge "d" "C" "D"] =
          (.ok tree, [("A", "B"), ("A", "C"), ("C", "D")]) ∧
      assembleInto [] (["D", "A", "C", "B"].map Body.ofName)
        [hinge "c" "A" "C", hinge "d" "C" "D", hinge "b" "A" "B"] =
          (.ok other, [("A", "C"), ("A", "B"), ("C", "D")]) ∧
      Rose.Reordered tree other := by
  obtain ⟨tree, first⟩ := @eq_ok_of_isOk (["A", "B", "C", "D"].map Body.ofName)
    [hinge "b" "A" "B", hinge "c" "A" "C", hinge "d" "C" "D"] []
    [("A", "B"), ("A", "C"), ("C", "D")] (by decide +kernel) (by decide +kernel)
  obtain ⟨other, second⟩ := @eq_ok_of_isOk (["D", "A", "C", "B"].map Body.ofName)
    [hinge "c" "A" "C", hinge "d" "C" "D", hinge "b" "A" "B"] []
    [("A", "C"), ("A", "B"), ("C", "D")] (by decide +kernel) (by decide +kernel)
  have declared : (["A", "B", "C", "D"].map Body.ofName).Perm (["D", "A", "C", "B"].map Body.ofName) :=
    List.Perm.map _ (by decide)
  have connected : [hinge "b" "A" "B", hinge "c" "A" "C", hinge "d" "C" "D"].Perm
      [hinge "c" "A" "C", hinge "d" "C" "D", hinge "b" "A" "B"] :=
    (List.perm_append_singleton (hinge "b" "A" "B") [hinge "c" "A" "C", hinge "d" "C" "D"]).symm
  obtain ⟨_, reordered, _⟩ := assembleInto_perm [] declared connected
  exact ⟨tree, other, first, second, reordered tree other (by rw [first]) (by rw [second])⟩

end Assembly

end Articulation
