import Articulation.Load
import Articulation.Proofs.Naming.Mjcf
import Articulation.Proofs.Naming.Urdf
/-! Generated names are fresh: while names are drawn, and in the models that are compiled. -/
namespace Articulation

open Session (GeneratedIn Searches indexedName)

/-- Every search for a name ends, at the least number from the one it starts from whose name is not declared.
Of the names that are drawn once some are declared, each has the next number of its stem, no two are the same
and none is declared. So in a model the generated names of bodies are declared nowhere in its document, and
are not the names of other bodies, of joints, or of the shapes on bodies, generated or not. -/
theorem generated_names_fresh :
    (∀ (s : Session) (stem : String), ∃ k,
      Searches (fun n => s.declared.contains (indexedName stem n)) ((s.counters.find? stem).getD 0) k ∧
      (Session.freshName stem).run s =
        (indexedName stem k, { s with counters := s.counters.insert stem (k + 1) })) ∧
    (∀ declared stems : List String, ∃ given : List (String × Nat), given.map Prod.fst = stems ∧
      GeneratedIn declared given ((do
        Session.declare declared
        stems.mapM Session.freshName : StateM Session (List String)).run .start).1) ∧
    (∀ surroundings root robot, compileElement surroundings .mjcf root = .ok robot →
      ∃ world first, root.child? "worldbody" = some world ∧ world.child? "body" = some first ∧
        robot.FreshlyNamed root.declaredNames
          (Mjcf.jointReferences (Mjcf.documentRules surroundings root) root) "body"
          (Mjcf.bodyElements none first) robot.bodyNames) ∧
    ∀ surroundings root robot, compileElement surroundings .urdf root = .ok robot →
      ∃ names, robot.bodyNames.Perm names ∧
        robot.FreshlyNamed root.declaredNames [] "link" (root.childrenOf "link") names := by
  refine ⟨Session.run_freshName, Session.generatedIn_freshNames, ?_, fun _ _ _ => Urdf.compile_named⟩
  intro surroundings root robot compiled
  rw [compileElement, Mjcf.compile_mjcf] at compiled
  cases found : Mjcf.rootBody root (Mjcf.documentName surroundings root) with
  | error e =>
    rw [found] at compiled
    contradiction
  | ok first =>
    rw [found] at compiled
    cases compiled
    obtain ⟨world, below, inside⟩ := Mjcf.rootBody_eq_ok.mp found
    exact ⟨world, first, below, inside, Mjcf.model_named surroundings _ below inside⟩

/-- Bodies without names about one that has the first name they could be given. -/
def unnamedBodies : Element :=
  Mjcf.element "mujoco" [] [Mjcf.element "worldbody" [] [Mjcf.element "body" [] [Mjcf.element "geom" [] [],
    Mjcf.element "body" [("name", "body_0")] [], Mjcf.element "body" [] []]]]

/-- A joint may refer to a link by the name that will be generated for it. -/
def unnamedLinks : Element :=
  Mjcf.element "robot" [] [Mjcf.element "link" [("name", "link_0")] [], Mjcf.element "link" [] [],
    Mjcf.element "joint" [] [Mjcf.element "parent" [("link", "link_1")] [],
      Mjcf.element "child" [("link", "link_0")] []]]

theorem generated_names_fresh_skipped :
    (∃ robot first, compileElement (.ofSettings .standard) .mjcf unnamedBodies = .ok robot ∧
      robot.bodyNames = ["body_1", "body_0", "body_2"] ∧
      robot.FreshlyNamed unnamedBodies.declaredNames
        (Mjcf.jointReferences (Mjcf.documentRules (.ofSettings .standard) unnamedBodies) unnamedBodies) "body"
        (Mjcf.bodyElements none first) robot.bodyNames) ∧
    ∃ robot names, compileElement (.ofSettings .standard) .urdf unnamedLinks = .ok robot ∧
      robot.bodyNames = ["link_1", "link_0"] ∧ robot.bodyNames.Perm names ∧
      robot.FreshlyNamed unnamedLinks.declaredNames [] "link" (unnamedLinks.childrenOf "link") names := by
  obtain ⟨_, _, mjcf, urdf⟩ := generated_names_fresh
  have bodies : Robot.bodyNames <$> compileElement (.ofSettings .standard) .mjcf unnamedBodies =
      .ok ["body_1", "body_0", "body_2"] := by decide +kernel
  have links : Robot.bodyNames <$> compileElement (.ofSettings .standard) .urdf unnamedLinks =
      .ok ["link_1", "link_0"] := by decide +kernel
  obtain ⟨robot, compiled, named⟩ := map_eq_ok.mp bodies
  obtain ⟨world, first, _, _, fresh⟩ := mjcf _ _ _ compiled
  obtain ⟨tree, linked, called⟩ := map_eq_ok.mp links
  obtain ⟨names, perm, apart⟩ := urdf _ _ _ linked
  exact ⟨⟨robot, first, compiled, named, fresh⟩, tree, names, linked, called, perm, apart⟩

end Articulation
