import Articulation.Asset.Basic
import Articulation.NameMap
/-! Entries under keys, in the order in which they were registered, and an index of their positions.
The first entry of a key stands; later ones are discarded. -/
namespace Articulation

/-- Entries in order, and the positions that their keys have in it. -/
structure Catalog {α : Type} (key : α → String) where
  entries : List α
  index : NameMap Nat
  indexed : ∀ id position,
    index.find? id = some position ↔ (entries.map key)[position]? = some id

namespace Catalog

variable {α : Type} {key : α → String}

def empty : Catalog key := ⟨[], .empty, by simp⟩

def find? (c : Catalog key) (id : String) : Option α :=
  (c.index.find? id).bind fun position => c.entries[position]?

def contains (c : Catalog key) (id : String) : Bool := (c.find? id).isSome

/-- What a key's position holds is the entry of that key. -/
theorem exists_entry {c : Catalog key} {id : String} {position : Nat}
    (found : c.index.find? id = some position) :
    ∃ entry, c.entries[position]? = some entry ∧ key entry = id := by
  have here := (c.indexed id position).1 found
  rwa [List.getElem?_map, Option.map_eq_some_iff] at here

theorem distinct (c : Catalog key) : (c.entries.map key).Nodup := by
  refine List.pairwise_iff_getElem.2 fun i j hi hj before same => ?_
  -- one key has one position
  have first := (c.indexed _ i).2 (List.getElem?_eq_getElem hi)
  have second := (c.indexed _ j).2 (List.getElem?_eq_getElem hj)
  rw [same, second] at first
  exact Nat.ne_of_gt before (Option.some.inj first)

/-- The index leads to the entry that a search through all of them meets. -/
theorem find?_eq (c : Catalog key) (id : String) :
    c.find? id = c.entries.find? fun entry => key entry == id := by
  unfold find?
  cases found : c.index.find? id with
  | none =>
    refine (List.find?_eq_none.2 fun entry member same => ?_).symm
    obtain ⟨position, bound, here⟩ := List.getElem_of_mem member
    have known := (c.indexed id position).2 (by simpa [here, bound] using same)
    rw [found] at known
    cases known
  | some position =>
    obtain ⟨entry, here, named⟩ := exists_entry found
    obtain ⟨bound, rfl⟩ := List.getElem?_eq_some_iff.1 here
    rw [Option.bind_some, here]
    refine (List.find?_eq_some_iff_getElem.2
      ⟨by simpa using named, position, bound, rfl, fun j before => ?_⟩).symm
    have other := List.pairwise_iff_getElem.1 c.distinct j position (by simp; omega) (by simpa) before
    simpa [named] using other

theorem find?_eq_none {c : Catalog key} {id : String} :
    c.find? id = none ↔ id ∉ c.entries.map key := by
  simp [find?_eq, List.find?_eq_none]

theorem index_contains (c : Catalog key) (id : String) : c.index.contains id = c.contains id := by
  unfold NameMap.contains contains find?
  cases found : c.index.find? id with
  | none => rfl
  | some position =>
    obtain ⟨entry, here, _⟩ := exists_entry found
    rw [Option.bind_some, here]
    rfl

/-- A key that is not taken can have the position behind the entries. -/
theorem indexed_concat {c : Catalog key} {entry : α} (free : ¬ c.index.contains (key entry))
    (id : String) (position : Nat) :
    (c.index.insert (key entry) c.entries.length).find? id = some position ↔
      ((c.entries ++ [entry]).map key)[position]? = some id := by
  have absent : c.index.find? (key entry) = none := by simpa [NameMap.contains] using free
  have before := c.indexed id position
  rw [NameMap.find?_insert, List.map_append, List.map_singleton, List.getElem?_append]
  grind

/-- Registers an entry unless its key is taken, and tells whether it did. -/
def register (c : Catalog key) (entry : α) : Bool × Catalog key :=
  if taken : c.index.contains (key entry) then (false, c)
  else
    (true, {
      entries := c.entries ++ [entry]
      index := c.index.insert (key entry) c.entries.length
      indexed := indexed_concat taken })

def add (c : Catalog key) (entry : α) : Catalog key := (c.register entry).2

theorem entries_add (c : Catalog key) (entry : α) :
    (c.add entry).entries = if c.contains (key entry) then c.entries else c.entries ++ [entry] := by
  simp only [add, register, ← index_contains]
  split <;> rfl

end Catalog

structure Assets where
  meshes : Catalog Mesh.id
  materials : Catalog Material.name
  heightfields : Catalog Heightfield.id

namespace Assets

def empty : Assets := ⟨.empty, .empty, .empty⟩

/-- Registers a mesh of an asset table. -/
def declareMesh (a : Assets) (mesh : Mesh) : Bool × Assets :=
  let (fresh, meshes) := a.meshes.register mesh
  (fresh, { a with meshes })

def registerMaterial (a : Assets) (material : Material) : Bool × Assets :=
  let (fresh, materials) := a.materials.register material
  (fresh, { a with materials })

def registerHeightfield (a : Assets) (heightfield : Heightfield) : Bool × Assets :=
  let (fresh, heightfields) := a.heightfields.register heightfield
  (fresh, { a with heightfields })

def addMesh (a : Assets) (mesh : Mesh) : Assets := (a.declareMesh mesh).2

def addMaterial (a : Assets) (material : Material) : Assets := (a.registerMaterial material).2

def addHeightfield (a : Assets) (heightfield : Heightfield) : Assets :=
  (a.registerHeightfield heightfield).2

theorem addMesh_eq (a : Assets) (mesh : Mesh) :
    a.addMesh mesh = { a with meshes := a.meshes.add mesh } := rfl

theorem addMaterial_eq (a : Assets) (material : Material) :
    a.addMaterial material = { a with materials := a.materials.add material } := rfl

/-- The mesh of a reference: the registered one of that id, else a file at unit scale that is
registered under the reference itself. Only then is the file located. -/
def resolveMeshM {m : Type → Type} [Monad m] (a : Assets) (reference : String)
    (file : String → m String) : m (Mesh × Assets) :=
  match a.meshes.find? reference with
  | some mesh => return (mesh, a)
  | none => do
    let mesh : Mesh := ⟨reference, ← file reference, .splat 1⟩
    return (mesh, a.addMesh mesh)

def resolveMesh (a : Assets) (reference : String) (file : String → String) : Mesh × Assets :=
  @resolveMeshM Id _ a reference file

theorem resolveMesh_eq (a : Assets) (reference : String) (file : String → String) :
    a.resolveMesh reference file =
      match a.meshes.find? reference with
      | some mesh => (mesh, a)
      | none =>
        (⟨reference, file reference, .splat 1⟩, a.addMesh ⟨reference, file reference, .splat 1⟩) := by
  unfold resolveMesh resolveMeshM
  cases a.meshes.find? reference <;> rfl

end Assets

end Articulation
