import Articulation.Geometry
import Articulation.Proofs.Traversal
/-! What a session can gain: registered assets stay as they are, and diagnostics and contact exclusions
join those already there. -/
namespace Articulation

/-! ### Assets -/

namespace Catalog

variable {α : Type} {key : α → String} {c d e : Catalog key}

theorem key_of_find? {id : String} {entry : α} (found : c.find? id = some entry) : key entry = id := by
  rw [find?_eq] at found
  simpa using List.find?_some found

theorem mem_of_find? {id : String} {entry : α} (found : c.find? id = some entry) :
    entry ∈ c.entries := by
  rw [find?_eq] at found
  exact List.mem_of_find?_eq_some found

theorem find?_add (c : Catalog key) (entry : α) (id : String) :
    (c.add entry).find? id = (c.find? id).or (if key entry = id then some entry else none) := by
  rw [find?_eq, find?_eq c, entries_add]
  split
  · rename_i taken
    by_cases same : key entry = id
    · obtain ⟨first, found⟩ := Option.isSome_iff_exists.mp taken
      rw [if_pos same, ← same, ← find?_eq, found, Option.some_or]
    · rw [if_neg same, Option.or_none]
  · rw [List.find?_append, List.find?_singleton]
    simp only [beq_iff_eq]

/-- What is found stays found, and stays the same. -/
def Extends (c d : Catalog key) : Prop := ∀ id entry, c.find? id = some entry → d.find? id = some entry

theorem Extends.refl (c : Catalog key) : c.Extends c := fun _ _ found => found

theorem Extends.trans (first : c.Extends d) (second : d.Extends e) : c.Extends e :=
  fun id entry found => second id entry (first id entry found)

theorem extends_add (c : Catalog key) (entry : α) : c.Extends (c.add entry) := by
  intro id other found
  rw [find?_add, found, Option.some_or]

theorem add_of_contains {entry : α} (taken : c.contains (key entry) = true) : c.add entry = c := by
  rw [← index_contains] at taken
  rw [add, register, dif_pos taken]

def addAll (c : Catalog key) (entries : List α) : Catalog key := entries.foldl add c

end Catalog

namespace Assets

structure Extends (a b : Assets) : Prop where
  meshes : a.meshes.Extends b.meshes
  materials : a.materials.Extends b.materials
  heightfields : a.heightfields.Extends b.heightfields

variable {a b c : Assets}

theorem Extends.refl (a : Assets) : a.Extends a := ⟨.refl _, .refl _, .refl _⟩

theorem Extends.trans (first : a.Extends b) (second : b.Extends c) : a.Extends c :=
  ⟨first.meshes.trans second.meshes, first.materials.trans second.materials,
    first.heightfields.trans second.heightfields⟩

theorem extends_addMesh (a : Assets) (mesh : Mesh) : a.Extends (a.addMesh mesh) :=
  ⟨Catalog.extends_add _ _, .refl _, .refl _⟩

theorem extends_addMaterial (a : Assets) (material : Material) : a.Extends (a.addMaterial material) :=
  ⟨.refl _, Catalog.extends_add _ _, .refl _⟩

theorem extends_addHeightfield (a : Assets) (heightfield : Heightfield) :
    a.Extends (a.addHeightfield heightfield) :=
  ⟨.refl _, .refl _, Catalog.extends_add _ _⟩

/-- A mesh that a reference resolves to is registered then. -/
theorem resolveMesh_spec {reference : String} {file : String → String} {mesh : Mesh}
    (resolved : a.resolveMesh reference file = (mesh, b)) :
    a.Extends b ∧ b.meshes.find? mesh.id = some mesh := by
  rw [resolveMesh_eq] at resolved
  split at resolved
  · rename_i found
    cases resolved
    rw [Catalog.key_of_find? found]
    exact ⟨.refl a, found⟩
  · rename_i missing
    cases resolved
    refine ⟨extends_addMesh _ _, ?_⟩
    rw [addMesh_eq, Catalog.find?_add, missing, Option.none_or, if_pos rfl]

end Assets

/-! ### Sessions -/

namespace Session

/-- The later session has gained assets, diagnostics and the given exclusions, and nothing is lost. -/
structure Grows (s t : Session) (added : List (String × String)) : Prop where
  assets : s.assets.Extends t.assets
  diagnostics : s.diagnostics <+: t.diagnostics
  exclusions : t.exclusions = s.exclusions ++ added

namespace Grows

variable {s t u : Session} {first second : List (String × String)}

theorem refl (s : Session) : Grows s s [] := ⟨.refl _, List.prefix_refl _, (List.append_nil _).symm⟩

theorem trans (before : Grows s t first) (after : Grows t u second) : Grows s u (first ++ second) where
  assets := before.assets.trans after.assets
  diagnostics := before.diagnostics.trans after.diagnostics
  exclusions := by rw [after.exclusions, before.exclusions, List.append_assoc]

theorem of_assets {a : Assets} (extended : s.assets.Extends a) : Grows s { s with assets := a } [] :=
  ⟨extended, List.prefix_refl _, (List.append_nil _).symm⟩

end Grows

/-! ### Computations that only report -/

/-- A computation with one result and one list of reports, whatever the session. -/
def OnlyReports {α : Type} (m : StateM Session α) : Prop :=
  ∃ x reports, ∀ s, m.run s = (x, { s with diagnostics := s.diagnostics ++ reports })

namespace OnlyReports

variable {α β : Type} {m : StateM Session α} {f : α → StateM Session β}

theorem pure (x : α) : OnlyReports (pure x) := by
  refine ⟨x, [], fun s => run_pure.mpr ⟨rfl, ?_⟩⟩
  rw [List.append_nil]

theorem report (d : Diagnostic) : OnlyReports (report d) := ⟨(), [d], fun _ => rfl⟩

theorem bind (first : OnlyReports m) (rest : ∀ x, OnlyReports (f x)) : OnlyReports (m >>= f) := by
  obtain ⟨x, reports, first⟩ := first
  obtain ⟨y, later, rest⟩ := rest x
  refine ⟨y, reports ++ later, fun s => run_bind.mpr ⟨x, _, first s, ?_⟩⟩
  rw [rest, List.append_assoc]

theorem map {g : α → β} (only : OnlyReports m) : OnlyReports (g <$> m) :=
  bind only fun x => pure (g x)

theorem instead (label : String) (misfit : Misfit) (x : α) :
    OnlyReports (Geometry.instead label misfit x) :=
  bind (report _) fun _ => pure x

end OnlyReports

/-! ### Computations without exclusions -/

/-- A computation that adds no exclusions. -/
def Quiet {α : Type} (m : StateM Session α) : Prop := ∀ s, Grows s (m.run s).2 []

namespace Quiet

variable {α β : Type} {m : StateM Session α} {f : α → StateM Session β}

theorem run (quiet : Quiet m) {s t : Session} {x : α} (run : m.run s = (x, t)) : Grows s t [] := by
  have grows := quiet s
  rwa [run] at grows

theorem pure (x : α) : Quiet (pure x) := Grows.refl

theorem bind (first : Quiet m) (rest : ∀ x, Quiet (f x)) : Quiet (m >>= f) :=
  fun s => (first s).trans (rest _ _)

theorem forM {xs : List α} {f : α → StateM Session Unit} (each : ∀ x ∈ xs, Quiet (f x)) :
    Quiet (xs.forM f) := by
  induction xs with
  | nil => exact pure ()
  | cons x xs ih =>
    obtain ⟨first, rest⟩ := List.forall_mem_cons.mp each
    exact bind first fun _ => ih rest

theorem mapM {xs : List α} (each : ∀ x, Quiet (f x)) : Quiet (xs.mapM f) := by
  induction xs with
  | nil => exact pure []
  | cons x xs ih =>
    rw [List.mapM_cons]
    exact bind (each x) fun _ => bind ih fun _ => pure _

theorem of_onlyReports (only : OnlyReports m) : Quiet m := by
  obtain ⟨x, reports, run⟩ := only
  intro s
  rw [run s]
  exact ⟨.refl _, List.prefix_append _ _, (List.append_nil _).symm⟩

theorem addAssets {extend : Assets → Assets} (extended : ∀ a : Assets, a.Extends (extend a)) :
    Quiet (modify fun s => { s with assets := extend s.assets }) :=
  fun s => .of_assets (extended s.assets)

theorem report (d : Diagnostic) : Quiet (report d) := of_onlyReports (.report d)

theorem declare (names : List String) : Quiet (declare names) :=
  fun _ => ⟨.refl _, List.prefix_refl _, (List.append_nil _).symm⟩

theorem freshName (stem : String) : Quiet (freshName stem) :=
  fun _ => ⟨.refl _, List.prefix_refl _, (List.append_nil _).symm⟩

theorem nameOr (declared : Option String) (stem : String) : Quiet (nameOr declared stem) := by
  cases declared with
  | none => exact freshName stem
  | some name => exact pure name

theorem misfit (label : String) (m : Misfit) : Quiet (Geometry.misfit label m) := report _

theorem instead (label : String) (m : Misfit) (value : α) : Quiet (Geometry.instead label m value) :=
  of_onlyReports (.instead label m value)

end Quiet

section

variable {α β : Type} {s t : Session}

/-- What each step of a traversal gives, if later steps do not spoil it. -/
theorem run_mapM {f : α → StateM Session β} {P : Session → α → β → Prop}
    (kept : ∀ {s t x y}, P s x y → Grows s t [] → P t x y)
    {xs : List α} (step : ∀ x ∈ xs, ∀ {s y t}, (f x).run s = (y, t) → Grows s t [] ∧ P t x y)
    {ys : List β} (run : (xs.mapM f).run s = (ys, t)) : Grows s t [] ∧ List.Forall₂ (P t) xs ys := by
  induction xs generalizing s ys with
  | nil =>
    obtain ⟨rfl, rfl⟩ := run_pure.mp run
    exact ⟨.refl _, .nil⟩
  | cons x xs ih =>
    rw [List.mapM_cons] at run
    obtain ⟨y, u, first, run⟩ := run_bind.mp run
    obtain ⟨zs, v, rest, run⟩ := run_bind.mp run
    obtain ⟨rfl, rfl⟩ := run_pure.mp run
    obtain ⟨step, steps⟩ := List.forall_mem_cons.mp step
    obtain ⟨here, holds⟩ := step first
    obtain ⟨later, all⟩ := ih steps rest
    exact ⟨here.trans later, .cons (kept holds later) all⟩

theorem run_forM {f : α → StateM Session Unit} {added : α → List (String × String)}
    (step : ∀ {x s t}, (f x).run s = ((), t) → Grows s t (added x)) {xs : List α}
    (run : (xs.forM f).run s = ((), t)) : Grows s t (xs.flatMap added) := by
  induction xs generalizing s with
  | nil =>
    obtain ⟨_, rfl⟩ := run_pure.mp run
    exact .refl _
  | cons x xs ih =>
    obtain ⟨_, u, first, rest⟩ := run_bind.mp run
    exact (step first).trans (ih rest)

end

theorem run_exclude {s t : Session} {a b : String} (run : (exclude a b).run s = ((), t)) :
    Grows s t [(a, b)] := by
  cases run
  exact ⟨.refl _, List.prefix_refl _, rfl⟩

theorem run_mesh {surroundings : Surroundings} {reference : String} {s t : Session} {found : Mesh}
    (run : (mesh surroundings reference).run s = (found, t)) :
    Grows s t [] ∧ t.assets.meshes.find? found.id = some found := by
  cases run
  have resolved := @Assets.resolveMesh_spec s.assets _ reference
    (fun file => surroundings.resolve file surroundings.meshDirectory) _ rfl
  exact ⟨.of_assets resolved.1, resolved.2⟩

theorem nameOr_declared {declared : Option String} {stem name given : String} {s t : Session}
    (run : (nameOr declared stem).run s = (name, t)) (some : declared = some given) : name = given := by
  subst some
  exact (run_pure.mp run).1

end Session

end Articulation
