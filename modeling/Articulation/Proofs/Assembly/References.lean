import Articulation.Load.Error
import Articulation.Proofs.Assembly.Tree
import Articulation.Proofs.Robot
/-! References in assembled trees. Assembly moves links about but keeps what is on them, and it excludes the
contacts along its connections and no others. -/
namespace Articulation.Assembly

variable {bodies : List Body} {connections : List Connection} {tree : Body} {a : Assets}

/-- Poses and joints refer to no assets. -/
theorem IsTreeOf.resolved (is : IsTreeOf bodies connections tree)
    (each : ∀ body ∈ bodies, body.link.Resolved a) : tree.Resolved a := by
  have every : ∀ body ∈ tree.bodies, body.link.Resolved a := by
    intro body member
    rcases is.hanging body member with rfl | ⟨c, _, given, listed, _, same⟩
    · obtain ⟨given, listed, same⟩ := is.rooted
      rw [same]
      exact each given listed
    · have known := each given listed
      rw [same]
      exact ⟨known.colliders, known.drawables⟩
  intro link member
  obtain ⟨body, inside, rfl⟩ := List.mem_map.mp member
  exact every body (Body.bodies_eq tree ▸ inside)

theorem IsTreeOf.mem_branches (is : IsTreeOf bodies connections tree) {edge : String × String} :
    edge ∈ tree.branches ↔ Leads connections edge.1 edge.2 := by
  rw [Body.mem_branches, ← is.edge_iff, Body.bodies_eq]

theorem mem_pairs {p : Plan} (stands : plan bodies connections = .ok p) {edge : String × String} :
    edge ∈ p.pairs ↔ Leads connections edge.1 edge.2 := by
  have walk := (planned stands).walk
  constructor
  · intro member
    obtain ⟨c, taken, rfl⟩ := List.mem_map.mp member
    exact ⟨c.1, (walk.mem_iff c.1).mp (List.mem_map_of_mem taken), rfl, rfl⟩
  · rintro ⟨c, listed, parent, child⟩
    obtain ⟨taken, member, same⟩ := List.mem_map.mp ((walk.mem_iff c).mpr listed)
    exact List.mem_map.mpr ⟨taken, member, by rw [same, parent, child]⟩

/-- What bodies assembled in a session without exclusions finish to, if they are assembled. -/
def finished (s : Session) (name : String) (bodies : List Body) (connections : List Connection)
    (actuators : Linkage → List Actuator) : Except LoadError Robot := do
  let tree ← (assembleInto s.exclusions bodies connections).1.mapError .assembly
  return { s with exclusions := (assembleInto s.exclusions bodies connections).2 }.finish name
    (.ofBody tree) (actuators (.ofBody tree))

theorem finished_eq_ok {s : Session} {name : String} {actuators : Linkage → List Actuator}
    {robot : Robot} :
    finished s name bodies connections actuators = .ok robot ↔
      ∃ tree pairs, assembleInto s.exclusions bodies connections = (.ok tree, pairs) ∧
        { s with exclusions := pairs }.finish name (.ofBody tree) (actuators (.ofBody tree)) = robot := by
  unfold finished
  cases assembleInto s.exclusions bodies connections with
  | mk outcome pairs =>
    cases outcome with
    | error e => simp [Except.mapError, bind, Except.bind]
    | ok tree => simp [Except.mapError, bind, Except.bind, pure, Except.pure]

theorem closed_of_finished {s : Session} {name : String} {robot : Robot}
    (actuators : Linkage → List Actuator) (childless : ∀ body ∈ bodies, body.children = [])
    (fresh : s.exclusions = [])
    (each : ∀ body ∈ bodies, body.link.Resolved s.assets)
    (driven : ∀ linkage, ∀ a ∈ actuators linkage, a.Resolved linkage s.diagnostics)
    (made : finished s name bodies connections actuators = .ok robot) : robot.Closed := by
  obtain ⟨tree, pairs, assembled, rfl⟩ := finished_eq_ok.mp made
  obtain ⟨p, stands, built, rfl⟩ := assembleInto_eq_ok assembled
  have is := erect_isTreeOf childless stands built
  have same (edge : String × String) : edge ∈ s.exclusions ++ p.pairs ↔ edge ∈ tree.branches := by
    rw [fresh, List.nil_append, mem_pairs stands, is.mem_branches]
  refine Session.closed_finish (s := { s with exclusions := s.exclusions ++ p.pairs })
    (is.resolved each) (driven _) ?_ ?_ name
  · exact fun pair member => Body.names_of_mem_branches ((same pair).mp member)
  · exact fun edge member => (same edge).mpr member

/-- Default actuators drive joints of the tree. -/
theorem resolved_actuated {enabled : Bool} {linkage : Linkage} {diagnostics : List Diagnostic}
    {make : Joint → Actuator} (drives : ∀ joint, (make joint).joint = some joint.name) :
    ∀ a ∈ if enabled then linkage.actuatedJoints.map make else [], a.Resolved linkage diagnostics := by
  intro a member
  split at member
  · obtain ⟨joint, listed, rfl⟩ := List.mem_map.mp member
    refine ⟨fun name driven => ?_, fun loose => ?_⟩
    · rw [drives] at driven
      cases driven
      exact Linkage.joint?_isSome listed
    · rw [drives] at loose
      contradiction
  · contradiction

end Articulation.Assembly
