import Articulation.Proofs.Session
import Mathlib.Data.List.Nodup
/-! Computations that do not depend on where they start. As long as the meshes of a session are those that
references alone determine, resolving a reference gives the same mesh whether it is registered or not; what
such a computation gives, registers and reports is then fixed, and so its runs can change places. -/
namespace Articulation

/-- The mesh of a reference that no declaration describes. -/
def Surroundings.undeclared (surroundings : Surroundings) (reference : String) : Mesh :=
  ⟨reference, surroundings.resolve reference surroundings.meshDirectory, .splat 1⟩

namespace Session

variable (surroundings : Surroundings)

/-- The session with the meshes of references registered and reports added. -/
def gained (s : Session) (references : List String) (reports : List Diagnostic) : Session :=
  { s with
    assets := { s.assets with
      meshes := s.assets.meshes.addAll (references.map surroundings.undeclared) }
    diagnostics := s.diagnostics ++ reports }

/-- The session holds certain materials, and no mesh that a declaration describes. -/
structure Settled (materials : Catalog Material.name) (s : Session) : Prop where
  meshes : ∀ mesh ∈ s.assets.meshes.entries, mesh = surroundings.undeclared mesh.id
  materials : s.assets.materials = materials

/-- What a computation gives, the references it resolves and what it reports. -/
structure Yield (α : Type) where
  value : α
  references : List String
  reports : List Diagnostic

/-- In every settled session the computation has this yield, and leaves all else as it is. -/
def Yields {α : Type} (materials : Catalog Material.name) (m : StateM Session α) (y : Yield α) : Prop :=
  ∀ s, Settled surroundings materials s →
    m.run s = (y.value, s.gained surroundings y.references y.reports)

/-- A computation that has the same yield in all settled sessions. -/
def Steady {α : Type} (materials : Catalog Material.name) (m : StateM Session α) : Prop :=
  ∃ y, Yields surroundings materials m y

variable {surroundings} {materials : Catalog Material.name} {s : Session}

theorem gained_nil (s : Session) : s.gained surroundings [] [] = s := by
  simp [gained, Catalog.addAll]

theorem gained_gained (s : Session) (references others : List String) (reports later : List Diagnostic) :
    (s.gained surroundings references reports).gained surroundings others later =
      s.gained surroundings (references ++ others) (reports ++ later) := by
  simp [gained, Catalog.addAll]

namespace Settled

theorem mem_add (settled : Settled surroundings materials s) {reference : String} {mesh : Mesh} :
    mesh ∈ (s.assets.meshes.add (surroundings.undeclared reference)).entries ↔
      mesh ∈ s.assets.meshes.entries ∨ mesh = surroundings.undeclared reference := by
  rw [Catalog.entries_add]
  split
  · rename_i taken
    refine ⟨.inl, fun either => either.elim id ?_⟩
    rintro rfl
    obtain ⟨entry, found⟩ := Option.isSome_iff_exists.mp taken
    have member := Catalog.mem_of_find? found
    have named : entry.id = reference := Catalog.key_of_find? found
    rw [settled.meshes entry member, named] at member
    exact member
  · simp

theorem gained_one (settled : Settled surroundings materials s) (reference : String)
    (reports : List Diagnostic) :
    Settled surroundings materials (s.gained surroundings [reference] reports) where
  meshes := by
    intro mesh member
    rcases settled.mem_add.mp member with old | rfl
    · exact settled.meshes mesh old
    · rfl
  materials := settled.materials

/-- Sessions stay settled, and beside the meshes they had they hold those of the references. -/
theorem gained (settled : Settled surroundings materials s) (references : List String)
    (reports : List Diagnostic) :
    Settled surroundings materials (s.gained surroundings references reports) ∧
      ∀ mesh, mesh ∈ (s.gained surroundings references reports).assets.meshes.entries ↔
        mesh ∈ s.assets.meshes.entries ∨ ∃ r ∈ references, mesh = surroundings.undeclared r := by
  induction references generalizing s reports with
  | nil => exact ⟨⟨settled.meshes, settled.materials⟩, by simp [Session.gained, Catalog.addAll]⟩
  | cons reference references ih =>
    have first := settled.gained_one reference reports
    have split : s.gained surroundings (reference :: references) reports =
        (s.gained surroundings [reference] reports).gained surroundings references [] := by
      rw [gained_gained, List.append_nil]
      rfl
    obtain ⟨kept, held⟩ := ih first []
    rw [split]
    refine ⟨kept, fun mesh => ?_⟩
    rw [held, show mesh ∈ (s.gained surroundings [reference] reports).assets.meshes.entries ↔ _ from
      settled.mem_add]
    simp [or_assoc]

/-- The order of references and reports shows in that of meshes and diagnostics only. -/
theorem gained_perm (settled : Settled surroundings materials s) {references others : List String}
    (perm : references.Perm others) (reports later : List Diagnostic) :
    (s.gained surroundings references reports).assets.meshes.entries.Perm
      (s.gained surroundings others later).assets.meshes.entries := by
  have nodup : ∀ c : Catalog Mesh.id, c.entries.Nodup := fun c => List.Nodup.of_map _ c.distinct
  refine (List.perm_ext_iff_of_nodup (nodup _) (nodup _)).mpr fun mesh => ?_
  rw [(settled.gained references reports).2, (settled.gained others later).2]
  simp only [perm.mem_iff]

end Settled

/-! ### Steady computations -/

namespace Steady

variable {α β : Type} {m : StateM Session α} {f : α → StateM Session β}

theorem pure (x : α) : Steady surroundings materials (pure x) :=
  ⟨⟨x, [], []⟩, fun s _ => congrArg (Prod.mk x) (gained_nil s).symm⟩

theorem of_onlyReports (only : OnlyReports m) : Steady surroundings materials m := by
  obtain ⟨x, reports, run⟩ := only
  exact ⟨⟨x, [], reports⟩, fun s _ => run s⟩

/-- What is resolved is the mesh that the reference determines, whether it was there or not. -/
theorem mesh (reference : String) : Steady surroundings materials (mesh surroundings reference) := by
  refine ⟨⟨surroundings.undeclared reference, [reference], []⟩, fun s settled => ?_⟩
  have resolved : (s.assets.resolveMesh reference fun file =>
      surroundings.resolve file surroundings.meshDirectory) =
        (surroundings.undeclared reference, s.assets.addMesh (surroundings.undeclared reference)) := by
    rw [Assets.resolveMesh_eq]
    cases found : s.assets.meshes.find? reference with
    | none => rfl
    | some entry =>
      have same := settled.meshes entry (Catalog.mem_of_find? found)
      rw [Catalog.key_of_find? found] at same
      have taken : s.assets.meshes.contains (surroundings.undeclared reference).id = true :=
        Option.isSome_iff_exists.mpr ⟨entry, found⟩
      simp only [Assets.addMesh_eq, Catalog.add_of_contains taken, same]
  have run : (Session.mesh surroundings reference).run s =
      (fun found : Mesh × Assets => ((found.1, { s with assets := found.2 }) : Mesh × Session))
        (s.assets.resolveMesh reference fun file =>
          surroundings.resolve file surroundings.meshDirectory) := rfl
  rw [run, resolved]
  simp [gained, Catalog.addAll, Assets.addMesh_eq]

theorem bind (first : Steady surroundings materials m)
    (rest : ∀ x, Steady surroundings materials (f x)) : Steady surroundings materials (m >>= f) := by
  obtain ⟨y, first⟩ := first
  obtain ⟨z, rest⟩ := rest y.value
  refine ⟨⟨z.value, y.references ++ z.references, y.reports ++ z.reports⟩, fun s settled => ?_⟩
  refine run_bind.mpr ⟨_, _, first s settled, ?_⟩
  rw [rest _ (settled.gained y.references y.reports).1, gained_gained]

theorem map {g : α → β} (steady : Steady surroundings materials m) :
    Steady surroundings materials (g <$> m) :=
  bind steady fun x => pure (g x)

theorem instead (label : String) (misfit : Misfit) (x : α) :
    Steady surroundings materials (Geometry.instead label misfit x) :=
  of_onlyReports (.instead label misfit x)

end Steady

/-- A traversal yields what its steps yield, one behind the other. -/
theorem run_mapM_yields {α β : Type} {f : α → StateM Session β} {xs : List α} {ys : List (Yield β)}
    (each : List.Forall₂ (fun x y => Yields surroundings materials (f x) y) xs ys)
    (settled : Settled surroundings materials s) :
    (xs.mapM f).run s = (ys.map Yield.value,
      s.gained surroundings (ys.flatMap Yield.references) (ys.flatMap Yield.reports)) := by
  induction each generalizing s with
  | nil => exact congrArg (Prod.mk []) (gained_nil s).symm
  | cons first _ ih =>
    rename_i x y xs ys
    rw [List.mapM_cons]
    refine run_bind.mpr ⟨_, _, first s settled, run_bind.mpr ⟨_, _, ih (settled.gained _ _).1, ?_⟩⟩
    rw [gained_gained]
    rfl

theorem Steady.mapM {α β : Type} {f : α → StateM Session β} {xs : List α}
    (each : ∀ x ∈ xs, Steady surroundings materials (f x)) :
    Steady surroundings materials (xs.mapM f) := by
  obtain ⟨ys, yields⟩ := exists_forall₂ each
  exact ⟨⟨_, _, _⟩, fun s settled => run_mapM_yields yields settled⟩

end Session

end Articulation
