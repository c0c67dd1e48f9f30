import Articulation.Proofs.Session
import Mathlib.Data.List.Induction
/-! Sequences of registrations, in any order and of any kinds. Each table of the assets is what the entries
that were submitted to it make of an empty one, and of these it holds the first ones of each key. -/
namespace Articulation

/-! ### One table -/

namespace Catalog

variable {α : Type} {key : α → String} {c : Catalog key} {submitted : List α}

/-- The first entry of each key. -/
def firsts (key : α → String) : List α → List α
  | [] => []
  | entry :: rest => entry :: (firsts key rest).filter fun other => key other != key entry

theorem firsts_concat (entries : List α) (entry : α) :
    firsts key (entries ++ [entry]) =
      if key entry ∈ entries.map key then firsts key entries else firsts key entries ++ [entry] := by
  induction entries with
  | nil => rfl
  | cons head rest ih =>
    rw [List.cons_append, firsts, firsts, ih, List.map_cons]
    by_cases later : key entry ∈ rest.map key
    · rw [if_pos later, if_pos (List.mem_cons_of_mem _ later)]
    · rw [if_neg later, List.filter_append]
      by_cases here : key entry = key head
      · simp [here]
      · simp [here, later]

theorem find?_firsts (entries : List α) (id : String) :
    (firsts key entries).find? (key · == id) = entries.find? (key · == id) := by
  induction entries with
  | nil => rfl
  | cons head rest ih =>
    rw [firsts, List.find?_cons, List.find?_cons, ← ih, List.find?_filter]
    cases here : key head == id with
    | true => rfl
    | false =>
      -- entries of the head's key are not those that are looked for
      refine congrArg (List.find? · (firsts key rest)) (funext fun entry => ?_)
      rw [Bool.decide_and, Bool.decide_eq_true, Bool.decide_eq_true, Bool.and_eq_right_iff_imp]
      intro same
      rw [bne_iff_ne, eq_of_beq same]
      exact fun equal => beq_eq_false_iff_ne.mp here equal.symm

/-- A table after entries were submitted: the first ones of each key in their order, with the positions
of exactly these keys in its index, so that a key leads to the first entry that was submitted under it. -/
structure Holds (c : Catalog key) (submitted : List α) : Prop where
  entries : c.entries = firsts key submitted
  distinct : (c.entries.map key).Nodup
  indexed : ∀ id position, c.index.find? id = some position ↔
    ∃ entry, c.entries[position]? = some entry ∧ key entry = id
  found : ∀ id, c.find? id = submitted.find? (key · == id)

theorem holds_of_entries (same : c.entries = firsts key submitted) : c.Holds submitted where
  entries := same
  distinct := c.distinct
  indexed := by
    intro id position
    rw [c.indexed, List.getElem?_map, Option.map_eq_some_iff]
  found := by
    intro id
    rw [find?_eq, same, find?_firsts]

theorem register_fst (c : Catalog key) (entry : α) :
    (c.register entry).1 = !c.contains (key entry) := by
  rw [← index_contains]
  by_cases taken : c.index.contains (key entry)
  · rw [register, dif_pos taken, taken, Bool.not_true]
  · rw [register, dif_neg taken, Bool.eq_false_iff.mpr taken, Bool.not_false]

namespace Holds

variable (holds : c.Holds submitted)

include holds

theorem contains_eq (id : String) : c.contains id = decide (id ∈ submitted.map key) := by
  rw [contains, holds.found, Bool.eq_iff_iff]
  simp

theorem add (entry : α) : (c.add entry).Holds (submitted ++ [entry]) := by
  refine holds_of_entries ?_
  rw [entries_add, firsts_concat, holds.contains_eq, holds.entries]
  simp only [decide_eq_true_eq]

theorem registers (entry : α) : (c.register entry).1 = decide (key entry ∉ submitted.map key) := by
  rw [register_fst, holds.contains_eq, decide_not]

end Holds

theorem addAll_append (c : Catalog key) (first second : List α) :
    c.addAll (first ++ second) = (c.addAll first).addAll second :=
  List.foldl_append

theorem holds_addAll (submitted : List α) : (empty.addAll submitted : Catalog key).Holds submitted := by
  induction submitted using List.reverseRecOn with
  | nil => exact holds_of_entries rfl
  | append_singleton entries entry ih =>
    rw [addAll_append]
    exact ih.add entry

theorem entries_prefix_add (c : Catalog key) (entry : α) : c.entries <+: (c.add entry).entries := by
  rw [entries_add]
  split
  · exact List.prefix_refl _
  · exact List.prefix_append _ _

theorem entries_prefix_addAll (c : Catalog key) (entries : List α) :
    c.entries <+: (c.addAll entries).entries := by
  induction entries generalizing c with
  | nil => exact List.prefix_refl _
  | cons entry rest ih => exact (entries_prefix_add c entry).trans (ih (c.add entry))

end Catalog

/-! ### All tables -/

/-- One request to the assets. -/
inductive Registration where
  | mesh (mesh : Mesh)
  | reference (raw : String) (file : String → String)
  | material (material : Material)
  | heightfield (heightfield : Heightfield)

namespace Registration

/-- What a request is answered: whether its entry was registered, or the mesh it refers to. -/
inductive Answer where
  | registered (fresh : Bool)
  | mesh (mesh : Mesh)
deriving DecidableEq, Repr

def run (a : Assets) : Registration → Answer × Assets
  | mesh m => (a.declareMesh m).map .registered id
  | reference raw file => (a.resolveMesh raw file).map .mesh id
  | material m => (a.registerMaterial m).map .registered id
  | heightfield h => (a.registerHeightfield h).map .registered id

/-- The assets after requests to new ones. -/
def after (requests : List Registration) : Assets :=
  requests.foldl (fun a request => (request.run a).2) .empty

def meshes : Registration → List Mesh
  | mesh m => [m]
  | reference raw file => [⟨raw, file raw, .splat 1⟩]
  | _ => []

def materials : Registration → List Material
  | material m => [m]
  | _ => []

def heightfields : Registration → List Heightfield
  | heightfield h => [h]
  | _ => []

/-- A request adds what it submits to the one table it is about, and touches no other. -/
theorem run_snd (a : Assets) (request : Registration) :
    (request.run a).2 = ⟨a.meshes.addAll request.meshes, a.materials.addAll request.materials,
      a.heightfields.addAll request.heightfields⟩ := by
  cases request with
  | mesh m => rfl
  | material m => rfl
  | heightfield h => rfl
  | reference raw file =>
    rw [run, Assets.resolveMesh_eq]
    cases known : a.meshes.find? raw with
    | none => rfl
    | some mesh =>
      have taken : a.meshes.contains raw = true := by rw [Catalog.contains, known, Option.isSome_some]
      have kept : a.meshes.add ⟨raw, file raw, .splat 1⟩ = a.meshes := Catalog.add_of_contains taken
      exact congrArg (fun meshes => { a with meshes }) kept.symm

theorem after_concat (requests : List Registration) (request : Registration) :
    after (requests ++ [request]) = (request.run (after requests)).2 := by
  rw [after, List.foldl_append]
  rfl

theorem after_eq (requests : List Registration) :
    after requests = ⟨.addAll .empty (requests.flatMap meshes), .addAll .empty (requests.flatMap materials),
      .addAll .empty (requests.flatMap heightfields)⟩ := by
  induction requests using List.reverseRecOn with
  | nil => rfl
  | append_singleton requests request ih =>
    rw [after_concat, run_snd, ih]
    simp only [List.flatMap_append, List.flatMap_singleton, Catalog.addAll_append]

theorem holds_after (requests : List Registration) :
    (after requests).meshes.Holds (requests.flatMap meshes) ∧
      (after requests).materials.Holds (requests.flatMap materials) ∧
      (after requests).heightfields.Holds (requests.flatMap heightfields) := by
  rw [after_eq]
  exact ⟨Catalog.holds_addAll _, Catalog.holds_addAll _, Catalog.holds_addAll _⟩

/-- What a request is answered after others: of one key, the first entry alone is registered, and references
lead to it. -/
def answer (requests : List Registration) : Registration → Answer
  | mesh m => .registered (m.id ∉ (requests.flatMap meshes).map Mesh.id)
  | reference raw file =>
    .mesh (((requests.flatMap meshes).find? (·.id == raw)).getD ⟨raw, file raw, .splat 1⟩)
  | material m => .registered (m.name ∉ (requests.flatMap materials).map Material.name)
  | heightfield h => .registered (h.id ∉ (requests.flatMap heightfields).map Heightfield.id)

theorem run_fst (requests : List Registration) (request : Registration) :
    (request.run (after requests)).1 = request.answer requests := by
  obtain ⟨meshes, materials, heightfields⟩ := holds_after requests
  cases request with
  | mesh m => exact congrArg Answer.registered (meshes.registers m)
  | material m => exact congrArg Answer.registered (materials.registers m)
  | heightfield h => exact congrArg Answer.registered (heightfields.registers h)
  | reference raw file =>
    rw [run, Assets.resolveMesh_eq, answer, meshes.found]
    cases (requests.flatMap Registration.meshes).find? (·.id == raw) <;> rfl

/-- The mesh that a reference resolves to is registered under the reference. -/
theorem find?_resolveMesh (a : Assets) (raw : String) (file : String → String) :
    (a.resolveMesh raw file).2.meshes.find? raw = some (a.resolveMesh raw file).1 := by
  rw [Assets.resolveMesh_eq]
  cases known : a.meshes.find? raw with
  | none => rw [Assets.addMesh_eq, Catalog.find?_add, known, Option.none_or, if_pos rfl]
  | some mesh => exact known

/-- Assets in which requests are recorded. -/
structure Recorded (requests : List Registration) (a : Assets) : Prop where
  meshes : a.meshes.Holds (requests.flatMap meshes)
  materials : a.materials.Holds (requests.flatMap materials)
  heightfields : a.heightfields.Holds (requests.flatMap heightfields)
  /-- Each table is what was submitted to it alone makes of an empty one. -/
  apart : a = ⟨.addAll .empty (requests.flatMap Registration.meshes),
    .addAll .empty (requests.flatMap Registration.materials),
    .addAll .empty (requests.flatMap Registration.heightfields)⟩
  /-- Later requests leave the entries in their places. -/
  lasting : ∀ later, a.meshes.entries <+: (after (requests ++ later)).meshes.entries ∧
    a.materials.entries <+: (after (requests ++ later)).materials.entries ∧
    a.heightfields.entries <+: (after (requests ++ later)).heightfields.entries
  answered : ∀ request : Registration, (request.run a).1 = request.answer requests
  /-- A reference leads to what is registered under it then. -/
  resolved : ∀ raw file, ∃ mesh, ((reference raw file).run a).1 = .mesh mesh ∧
    ((reference raw file).run a).2.meshes.find? raw = some mesh
  /-- Nothing is located for a reference that is known, whatever locating a file would do. -/
  located : ∀ (m : Type → Type) [Monad m] (raw : String) (file : String → m String),
    a.resolveMeshM raw file = match (requests.flatMap Registration.meshes).find? (·.id == raw) with
      | some known => pure (known, a)
      | none => file raw >>= fun path => pure (⟨raw, path, .splat 1⟩, a.addMesh ⟨raw, path, .splat 1⟩)

/-- Whatever is requested of new assets, in whatever order, each table registers the first entry of each key,
tells first requests from others, and finds what it registered; nothing that is registered is changed or
moved, and no table depends on the others. -/
theorem recorded_after (requests : List Registration) : Recorded requests (after requests) where
  meshes := (holds_after requests).1
  materials := (holds_after requests).2.1
  heightfields := (holds_after requests).2.2
  apart := after_eq requests
  lasting := by
    intro later
    rw [after_eq requests, after_eq (requests ++ later)]
    simp only [List.flatMap_append, Catalog.addAll_append]
    exact ⟨Catalog.entries_prefix_addAll _ _, Catalog.entries_prefix_addAll _ _,
      Catalog.entries_prefix_addAll _ _⟩
  answered := run_fst requests
  resolved := fun raw file => ⟨_, rfl, find?_resolveMesh _ raw file⟩
  located := by
    intro m _ raw file
    rw [← (holds_after requests).1.found]
    rfl

example : ((after [.mesh ⟨"hand", "hand.stl", .splat 0.01⟩]).resolveMeshM "hand" fun _ =>
    (none : Option String)).map Prod.fst = some ⟨"hand", "hand.stl", .splat 0.01⟩ := by
  decide +kernel

end Registration

end Articulation
