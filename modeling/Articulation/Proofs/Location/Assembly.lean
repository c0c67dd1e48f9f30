import Articulation.Proofs.Assembly.Mapping
import Articulation.Proofs.Assembly.References
import Articulation.Proofs.Location.Steps
/-! Assembling bodies at two places. Bodies are found by name and moved as they are, so that their files come
along and change nothing. -/
namespace Articulation

theorem Link.commutes_withoutFiles : Link.Commutes Link.withoutFiles :=
  ⟨fun _ => rfl, fun _ _ => rfl, fun _ _ => rfl⟩

/-- Bodies that differ in files only are assembled to trees that do, or fail for one reason. -/
theorem Assembly.finished_anywhere {s t : Session} (sessions : s.SameButFiles t)
    {bodies others : List Body} (same : bodies.map Body.withoutFiles = others.map Body.withoutFiles)
    {declared : Option String} {name other : String}
    (names : nameAnywhere declared name = nameAnywhere declared other) (connections : List Connection)
    {actuators : Linkage → List Actuator}
    (driven : ∀ t u : Linkage, t.withoutFiles = u.withoutFiles → actuators t = actuators u) :
    anywhere declared (finished s name bodies connections actuators) =
      anywhere declared (finished t other others connections actuators) := by
  have left := assembleInto_map Link.commutes_withoutFiles s.exclusions bodies connections
  have right := assembleInto_map Link.commutes_withoutFiles s.exclusions others connections
  have both := left.symm.trans ((congrArg (assembleInto s.exclusions · connections) same).trans right)
  obtain ⟨outcomes, pairs⟩ := Prod.mk.inj both
  rw [finished, finished, ← sessions.exclusions, pairs]
  generalize (assembleInto s.exclusions bodies connections).1 = first at outcomes
  generalize (assembleInto s.exclusions others connections).1 = second at outcomes
  cases first with
  | error e =>
    cases second with
    | error e' =>
      cases outcomes
      rfl
    | ok tree => contradiction
  | ok tree =>
    cases second with
    | error e => contradiction
    | ok another =>
      have same : tree.withoutFiles = another.withoutFiles := Except.ok.inj outcomes
      have trees : (Linkage.ofBody tree).withoutFiles = (Linkage.ofBody another).withoutFiles := by
        rw [Linkage.withoutFiles_ofBody, same, Linkage.withoutFiles_ofBody]
      generalize (assembleInto s.exclusions others connections).2 = excluded
      exact congrArg Except.ok (Session.SameButFiles.finish (s := { s with exclusions := excluded })
        (t := { t with exclusions := excluded }) { sessions with exclusions := rfl } trees names
        (driven _ _ trees))

end Articulation
