import Articulation.Proofs.Location.Basic
import Articulation.Proofs.Session
/-! Two runs in step. The sessions of a computation at two places differ in the paths of files only, if they
did so before: paths are stored, but nothing is looked up by them and nothing is decided by them. -/
namespace Articulation

/-! ### Assets -/

namespace Catalog

variable {α β : Type} {key : α → String} {c d : Catalog key} {e : α → α}
  (keeps : ∀ x, key (e x) = key x) (same : c.entries.map e = d.entries.map e)

include keeps same

theorem find?_alike (id : String) : (c.find? id).map e = (d.find? id).map e := by
  have read (c : Catalog key) :
      (c.find? id).map e = (c.entries.map e).find? fun entry => key entry == id := by
    rw [List.find?_map, Catalog.find?_eq]
    simp only [Function.comp_def, keeps]
  rw [read, read, same]

theorem entries_add_alike {x y : α} (alike : e x = e y) :
    (c.add x).entries.map e = (d.add y).entries.map e := by
  have id : key x = key y := by rw [← keeps x, alike, keeps]
  have taken : c.contains (key x) = d.contains (key y) := by
    have found := congrArg Option.isSome (find?_alike keeps same (key x))
    rw [Option.isSome_map, Option.isSome_map] at found
    rw [contains, contains, ← id, found]
  rw [entries_add, entries_add, taken]
  split
  · exact same
  · rw [List.map_append, List.map_append, same, List.map_singleton, List.map_singleton, alike]

end Catalog

namespace Session

/-- The sessions hold the same, but for the files of their meshes and heightfields. -/
structure SameButFiles (s t : Session) : Prop where
  meshes : s.assets.meshes.entries.map Mesh.withoutFile = t.assets.meshes.entries.map Mesh.withoutFile
  materials : s.assets.materials = t.assets.materials
  heightfields : s.assets.heightfields.entries.map Heightfield.withoutFile =
    t.assets.heightfields.entries.map Heightfield.withoutFile
  exclusions : s.exclusions = t.exclusions
  diagnostics : s.diagnostics = t.diagnostics
  counters : s.counters = t.counters
  declared : s.declared = t.declared

theorem SameButFiles.refl (s : Session) : s.SameButFiles s := ⟨rfl, rfl, rfl, rfl, rfl, rfl, rfl⟩

theorem SameButFiles.finish {s t : Session} (same : s.SameButFiles t) {tree other : Linkage}
    (trees : tree.withoutFiles = other.withoutFiles) {declared : Option String} {name also : String}
    (names : nameAnywhere declared name = nameAnywhere declared also) {drives others : List Actuator}
    (driven : drives = others) :
    (s.finish name tree drives).anywhere declared = (t.finish also other others).anywhere declared := by
  simp only [Robot.anywhere, Robot.withoutFiles, Session.finish, trees, names, driven, same.meshes,
    same.materials, same.heightfields, same.exclusions, same.diagnostics]

/-- From such sessions the two computations lead to such sessions, and what they give is the same once it is
reduced. -/
def InStep {α β : Type} (reduce : α → β) (m n : StateM Session α) : Prop :=
  ∀ s t, s.SameButFiles t →
    reduce (m.run s).1 = reduce (n.run t).1 ∧ (m.run s).2.SameButFiles (n.run t).2

namespace InStep

variable {α β γ δ : Type} {reduce : α → γ} {also : β → δ} {m n : StateM Session α}

theorem run (step : InStep reduce m n) {s t s' t' : Session} {x y : α} (same : s.SameButFiles t)
    (first : m.run s = (x, s')) (second : n.run t = (y, t')) :
    reduce x = reduce y ∧ s'.SameButFiles t' := by
  have both := step s t same
  rwa [first, second] at both

theorem pure {x y : α} (same : reduce x = reduce y) : InStep reduce (pure x) (pure y) :=
  fun _ _ sessions => ⟨same, sessions⟩

theorem bind {f g : α → StateM Session β} (first : InStep reduce m n)
    (rest : ∀ x y, reduce x = reduce y → InStep also (f x) (g y)) : InStep also (m >>= f) (n >>= g) := by
  intro s t same
  obtain ⟨alike, later⟩ := first s t same
  exact rest _ _ alike _ _ later

theorem bind_same {f g : α → StateM Session β} (first : InStep id m n)
    (rest : ∀ x, InStep also (f x) (g x)) : InStep also (m >>= f) (n >>= g) := by
  refine first.bind fun x y same => ?_
  cases same
  exact rest x

theorem map {f : α → β} (first : InStep reduce m n)
    (reduced : ∀ x y, reduce x = reduce y → also (f x) = also (f y)) : InStep also (f <$> m) (f <$> n) :=
  first.bind fun x y same => pure (reduced x y same)

/-- What reads the session may use all of it but the files. -/
theorem reading {f g : Session → StateM Session β}
    (each : ∀ s t, s.SameButFiles t → InStep also (f s) (g t)) : InStep also (get >>= f) (get >>= g) :=
  fun s t same => each s t same s t same

theorem of_onlyReports (only : OnlyReports m) : InStep reduce m m := by
  obtain ⟨x, reports, run⟩ := only
  intro s t same
  rw [run s, run t]
  exact ⟨rfl, { same with diagnostics := congrArg (· ++ reports) same.diagnostics }⟩

theorem exclude (a b : String) : InStep id (exclude a b) (exclude a b) :=
  fun _ _ same => ⟨rfl, { same with exclusions := congrArg (· ++ [(a, b)]) same.exclusions }⟩

theorem declare (names : List String) : InStep id (declare names) (declare names) :=
  fun _ _ same => ⟨rfl, { same with declared := congrArg (names.foldl _) same.declared }⟩

theorem freshName (stem : String) : InStep id (freshName stem) (freshName stem) := by
  intro s t same
  let next (s : Session) : Nat := firstFree s.declared.contains (indexedName stem) s.declared.size
    ((s.counters.find? stem).getD 0)
  have index : next s = next t := by simp only [next, same.declared, same.counters]
  refine ⟨congrArg (indexedName stem) index, { same with counters := ?_ }⟩
  show s.counters.insert stem (next s + 1) = t.counters.insert stem (next t + 1)
  rw [index, same.counters]

theorem nameOr (declared : Option String) (stem : String) :
    InStep id (nameOr declared stem) (nameOr declared stem) := by
  cases declared with
  | none => exact freshName stem
  | some name => exact pure rfl

/-! ### Traversals -/

theorem mapM {f g : β → StateM Session α} {xs : List β} (each : ∀ x ∈ xs, InStep reduce (f x) (g x)) :
    InStep (List.map reduce) (xs.mapM f) (xs.mapM g) := by
  induction xs with
  | nil => exact pure rfl
  | cons x xs ih =>
    obtain ⟨first, each⟩ := List.forall_mem_cons.mp each
    rw [List.mapM_cons, List.mapM_cons]
    refine first.bind fun y z same => (ih each).bind fun ys zs rest => pure ?_
    rw [List.map_cons, List.map_cons, same, rest]

theorem mapM_same {f g : β → StateM Session α} {xs : List β} (each : ∀ x ∈ xs, InStep id (f x) (g x)) :
    InStep id (xs.mapM f) (xs.mapM g) := by
  intro s t same
  obtain ⟨alike, later⟩ := mapM each s t same
  rw [List.map_id, List.map_id] at alike
  exact ⟨alike, later⟩

theorem forM {f g : β → StateM Session Unit} {xs : List β}
    (each : ∀ x ∈ xs, InStep id (f x) (g x)) : InStep id (xs.forM f) (xs.forM g) := by
  induction xs with
  | nil => exact pure rfl
  | cons x xs ih =>
    obtain ⟨first, each⟩ := List.forall_mem_cons.mp each
    exact first.bind fun _ _ _ => ih each

theorem foldlM {f g : α → β → StateM Session α} {xs : List β}
    (each : ∀ x ∈ xs, ∀ a b, reduce a = reduce b → InStep reduce (f a x) (g b x)) {a b : α}
    (start : reduce a = reduce b) : InStep reduce (xs.foldlM f a) (xs.foldlM g b) := by
  induction xs generalizing a b with
  | nil => exact pure start
  | cons x xs ih =>
    obtain ⟨first, each⟩ := List.forall_mem_cons.mp each
    rw [List.foldlM_cons, List.foldlM_cons]
    exact (first a b start).bind fun _ _ same => ih each same

/-! ### Registering -/

theorem addMesh {mesh other : Mesh} (alike : mesh.withoutFile = other.withoutFile) :
    InStep id (modify fun s : Session => { s with assets := s.assets.addMesh mesh })
      (modify fun s : Session => { s with assets := s.assets.addMesh other }) :=
  fun _ _ same => ⟨rfl, { same with
    meshes := Catalog.entries_add_alike (e := Mesh.withoutFile) (fun _ => rfl) same.meshes alike }⟩

theorem addMaterial (material : Material) :
    InStep id (modify fun s : Session => { s with assets := s.assets.addMaterial material })
      (modify fun s : Session => { s with assets := s.assets.addMaterial material }) :=
  fun _ _ same => ⟨rfl, { same with materials := congrArg (·.add material) same.materials }⟩

theorem addHeightfield {grid other : Heightfield} (alike : grid.withoutFile = other.withoutFile) :
    InStep id (modify fun s : Session => { s with assets := s.assets.addHeightfield grid })
      (modify fun s : Session => { s with assets := s.assets.addHeightfield other }) :=
  fun _ _ same => ⟨rfl, { same with
    heightfields := Catalog.entries_add_alike (e := Heightfield.withoutFile) (fun _ => rfl)
      same.heightfields alike }⟩

/-- Whether a reference is registered does not depend on the place, and neither does what is registered
for it, but for its file. -/
theorem mesh (here there : Surroundings) (reference : String) :
    InStep Mesh.withoutFile (mesh here reference) (mesh there reference) := by
  intro s t same
  have run (surroundings : Surroundings) (s : Session) : (Session.mesh surroundings reference).run s =
      (fun found : Mesh × Assets => ((found.1, { s with assets := found.2 }) : Mesh × Session))
        (s.assets.resolveMesh reference fun file =>
          surroundings.resolve file surroundings.meshDirectory) := rfl
  have found := Catalog.find?_alike (e := Mesh.withoutFile) (fun _ => rfl) same.meshes reference
  rw [run, run, Assets.resolveMesh_eq, Assets.resolveMesh_eq]
  cases first : s.assets.meshes.find? reference with
  | none =>
    rw [first] at found
    rw [Option.map_eq_none_iff.mp found.symm]
    exact ⟨rfl, { same with
      meshes := Catalog.entries_add_alike (e := Mesh.withoutFile) (fun _ => rfl) same.meshes rfl }⟩
  | some mesh =>
    rw [first] at found
    obtain ⟨other, second, alike⟩ := Option.map_eq_some_iff.mp found.symm
    rw [second]
    exact ⟨alike.symm, same⟩

end InStep

end Session

end Articulation
