import Articulation.Proofs.Defaults
import Articulation.Proofs.Element.Arena
/-! What can be relied on in every tree that a reader, checked writes and copies can make: its numbers fit
together, its elements stand where the schema allows them, and its attributes, like the default values
collected from it, are of the declared types. A write that is refused changes nothing. -/
namespace Articulation

variable {schema : Schema} {kind : SchemaKind}

/-! ### Default values -/

namespace Defaults

/-- The values for one type of element are declared for it, each in its type. -/
def TypedValues (schema : Schema) (kind : String) (values : Values) : Prop :=
  values.All fun name value => schema.attributeType? kind name = some value.type

structure Typed (schema : Schema) (d : Defaults) : Prop where
  byClass : d.byClass.All fun _ table => table.All (TypedValues schema)
  unclassed : d.unclassed.All (TypedValues schema)

theorem typed_merge {e : Element} (conforms : e.value.Conforms schema) {values : Values}
    (typed : TypedValues schema e.kind values) : TypedValues schema e.kind (merge values e) := by
  refine List.foldlRecOn _ _ typed fun values typed entry listed => ?_
  split
  · exact NameMap.All.insert typed (conforms.typed entry listed)
  · exact typed

theorem typed_addValues {elements : List Element} (conforms : ∀ e ∈ elements, e.value.Conforms schema)
    {table : DefaultTable} (typed : table.All (TypedValues schema)) :
    (addValues table elements).All (TypedValues schema) := by
  refine List.foldlRecOn _ _ typed fun table typed e member => ?_
  split
  · exact typed
  · exact typed.modify .empty fun _ => typed_merge (conforms e member)

theorem typed_addOwn {block : Element} (conforms : ∀ e ∈ block.children, e.value.Conforms schema)
    {d : Defaults} (typed : d.Typed schema) : (d.addOwn block).Typed schema := by
  unfold addOwn
  split
  · exact ⟨typed.byClass.modify .empty fun _ => typed_addValues conforms, typed.unclassed⟩
  · exact typed

theorem typed_ofDocument {root : Element} (conforms : root.Conforms kind.schema) :
    (ofDocument root).Typed kind.schema := by
  have classed : ((innerBlocks root).foldl addOwn Defaults.empty).Typed kind.schema := by
    refine List.foldlRecOn _ _ ⟨.empty, .empty⟩ fun d typed block member => ?_
    refine typed_addOwn (fun e below => ?_) typed
    exact ((conforms_inner conforms member).child below).2.tag
  refine ⟨?_, ?_⟩
  · rw [← collected (nested_of_conforms conforms)] at classed
    exact classed.byClass
  · rw [unclassed_ofDocument]
    refine typed_addValues (fun e member => ?_) .empty
    obtain ⟨block, top, below⟩ := List.mem_flatMap.mp member
    exact ((conforms_outer conforms top).child below).2.tag

end Defaults

/-! ### Writes -/

/-- A checked write at the number of an element. -/
inductive Write where
  | add (parent : Nat) (kind : String)
  | setAttribute (id : Nat) (name : String) (value : AttributeValue)
  | setAttributeText (id : Nat) (name raw : String)

namespace Write

def target : Write → Nat
  | add parent _ => parent
  | setAttribute id _ _ => id
  | setAttributeText id _ _ => id

def writing : Write → Writing Unit
  | add parent kind => do let _ ← Writing.add parent kind
  | setAttribute id name value => Writing.setAttribute id name value
  | setAttributeText id name raw => Writing.setAttributeText id name raw

/-- What a write leaves behind, be it refused or not. -/
def run (w : Write) (t : ElementTree) : Except SchemaViolation Unit × ElementTree :=
  w.writing.run.run t

end Write

namespace ElementTree

variable {t : ElementTree}

theorem run_refused {α β : Type} {w : Writing α} {f : α → Writing β} {u : ElementTree}
    {violation : SchemaViolation} (first : w.run.run t = (.error violation, u)) :
    (w >>= f).run.run t = (.error violation, u) := by
  show StateT.run (ExceptT.run w >>= ExceptT.bindCont f) t = _
  rw [StateT.run_bind, first]
  rfl

theorem written_eq_ok {α : Type} {w : Writing α} {x : α} {u : ElementTree}
    (done : w.run.run t = (.ok x, u)) : t.written w = .ok u := by
  rw [written, done]

theorem Made.push (made : Made kind t) (parent : Nat) (name : String) (inside : parent < t.size)
    (checked : checkChild t.schema (t.tag parent).kind name = .ok ()) : Made kind (t.push parent name) := by
  have outcome := run_add t parent name
  rw [checked] at outcome
  exact @Made.add kind t _ ⟨parent, inside⟩ name made (written_eq_ok outcome)

theorem Made.insertAttribute (made : Made kind t) (id : Nat) (name : String) (value : AttributeValue)
    (inside : id < t.size) (checked : checkAttribute t.schema (t.tag id).kind name value = .ok ()) :
    Made kind (t.insertAttribute id name value) := by
  have outcome := run_setAttribute t id name value
  rw [checked] at outcome
  exact @Made.setAttribute kind t _ ⟨id, inside⟩ name value made (written_eq_ok outcome)

/-- A write is refused and leaves the tree as it is, or makes another tree of it. -/
theorem Made.run (made : Made kind t) (w : Write) (inside : w.target < t.size) :
    (∃ violation, w.run t = (.error violation, t)) ∨ ∃ u, w.run t = (.ok (), u) ∧ Made kind u := by
  have assigned (id : Nat) (inside : id < t.size) (name : String) (value : AttributeValue) :
      (∃ violation, (Writing.setAttribute id name value).run.run t = (.error violation, t)) ∨
        ∃ u, (Writing.setAttribute id name value).run.run t = (.ok (), u) ∧ Made kind u := by
    have outcome := run_setAttribute t id name value
    split at outcome
    · rename_i checked
      exact .inr ⟨_, outcome, made.insertAttribute id name value inside checked⟩
    · exact .inl ⟨_, outcome⟩
  cases w with
  | add parent name =>
    have outcome := run_add t parent name
    split at outcome
    · rename_i checked
      exact .inr ⟨_, run_written outcome, made.push parent name inside checked⟩
    · exact .inl ⟨_, run_refused outcome⟩
  | setAttribute id name value => exact assigned id inside name value
  | setAttributeText id name raw =>
    have outcome := run_setAttributeText t id name raw
    split at outcome
    · exact .inl ⟨_, outcome⟩
    · split at outcome
      · exact .inl ⟨_, outcome⟩
      · rename_i value _
        exact (assigned id inside name value).imp (fun ⟨_, same⟩ => ⟨_, outcome.trans same⟩)
          fun ⟨_, same, made⟩ => ⟨_, outcome.trans same, made⟩

/-! ### Sound trees -/

theorem Made.isArena (made : Made kind t) : t.IsArena := by
  induction made with
  | read read =>
    rw [read_eq] at read
    obtain ⟨e, _, rfl⟩ := map_eq_ok.mp read
    exact .ofElement _ e
  | new made =>
    obtain ⟨_, rfl⟩ := new_eq_ok made
    exact .leaf _ _
  | @add t u parent name _ added ih =>
    obtain ⟨_, rfl⟩ := add_eq_ok added
    exact ih.push parent.isLt name
  | @setAttribute t u id name value _ written ih =>
    obtain ⟨_, rfl⟩ := setAttribute_eq_ok written
    exact ih.insertAttribute id name value
  | @setAttributeText t u id name raw _ written ih =>
    obtain ⟨value, written⟩ := setAttributeText_eq_ok written
    obtain ⟨_, rfl⟩ := setAttribute_eq_ok written
    exact ih.insertAttribute id name value
  | deepCopy made copied =>
    rw [deepCopy_of_conforms made.conforms] at copied
    cases copied
    exact .ofElement _ _

/-- What holds of the numbers, elements and attributes of a tree, and of the default values in it. -/
structure Sound (kind : SchemaKind) (t : ElementTree) : Prop where
  schema : t.schema = kind.schema
  arena : t.IsArena
  once : ∀ {id parent}, t.above id = some parent → (t.below parent).count id = 1
  preorder : ∀ id, t.descendants id = (t.below id).flatMap fun c => c :: t.descendants c
  nodup : (t.descendants 0).Nodup
  complete : ∀ id, id ∈ t.descendants 0 ↔ 0 < id ∧ id < t.size
  known : ∀ id < t.size, kind.schema.hasElement (t.tag id).kind = true
  allowed : ∀ {id parent}, t.above id = some parent →
    kind.schema.allowsChild (t.tag parent).kind (t.tag id).kind = true
  typed : ∀ id < t.size, ∀ type, ∀ entry ∈ (t.tag id).attributes.ofType type,
    entry.2.type = type ∧ kind.schema.attributeType? (t.tag id).kind entry.1 = some type
  distinct : ∀ id < t.size, (t.tag id).attributes.Distinct
  defaults : (Defaults.ofDocument t.root).Typed kind.schema

/-- Every tree that a reader, checked writes and copies make is sound, and so is what a further write
leaves behind: a write that is refused leaves the tree as it is. -/
theorem Made.sound (made : Made kind t) :
    t.Sound kind ∧ ∀ w : Write, w.target < t.size →
      (∃ violation, w.run t = (.error violation, t)) ∨
        ∃ u, w.run t = (.ok (), u) ∧ Made kind u ∧ u.Sound kind := by
  have sound {t : ElementTree} (made : Made kind t) : t.Sound kind := by
    have arena := made.isArena
    have conforms := made.conforms
    have schema := made.schema_eq
    constructor
    · exact schema
    · exact arena
    · exact arena.count_below
    · exact arena.descendants_eq
    · exact arena.nodup_descendants 0
    · exact fun id => arena.mem_descendants_root
    · exact fun id inside => schema ▸ (conforms.tags id inside).known
    · intro id parent within
      have listed := arena.listed within
      have inside : parent < t.size := by
        have bounds := arena.lt listed
        omega
      exact schema ▸ (conforms.below parent inside id listed).2
    · intro id inside type entry member
      have own := Attributes.type_of_mem member
      have declared := (conforms.tags id inside).typed entry (Attributes.mem_listed.mpr (own ▸ member))
      exact ⟨own, own ▸ schema ▸ declared⟩
    · exact fun id inside => (conforms.tags id inside).distinct
    · exact Defaults.typed_ofDocument made.root_conforms
  refine ⟨sound made, fun w inside => (made.run w inside).imp_right ?_⟩
  rintro ⟨u, done, made⟩
  exact ⟨u, done, made, sound made⟩

/-- A tree whose nodes were not added in pre-order: the body came behind the default block, and the
geom in it last. -/
def crossed : ElementTree :=
  ((((((withRoot .mjcf "mujoco").push 0 "worldbody").push 0 "default").push 1 "body").push 2 "geom"
    ).insertAttribute 4 "type" (.string "box")).push 3 "geom"

theorem made_crossed : Made .mjcf crossed := by
  have known : ElementTree.new SchemaKind.mjcf.schema "mujoco" = .ok (withRoot .mjcf "mujoco") := by
    decide +kernel
  have root : Made .mjcf (withRoot .mjcf "mujoco") := .new known
  have world := root.push 0 "worldbody" (by decide) (by decide +kernel)
  have block := world.push 0 "default" (by decide) (by decide +kernel)
  have body := block.push 1 "body" (by decide) (by decide +kernel)
  have box := body.push 2 "geom" (by decide) (by decide +kernel)
  have typed := box.insertAttribute 4 "type" (.string "box") (by decide) (by decide +kernel)
  exact typed.push 3 "geom" (by decide) (by decide +kernel)

/-- The tree is sound though its descendants do not come in the order of their numbers, and an element
that may not stand in a geom is not added there. -/
theorem Made.sound_crossed :
    crossed.Sound .mjcf ∧ crossed.descendants 0 = [1, 3, 5, 2, 4] ∧
      ((Write.add 4 "body").run crossed).2 = crossed := by
  obtain ⟨sound, closed⟩ := made_crossed.sound
  refine ⟨sound, by decide +kernel, ?_⟩
  have forbidden : ((Write.add 4 "body").run crossed).1 ≠ .ok () := by decide +kernel
  rcases closed (.add 4 "body") (by decide) with ⟨violation, refused⟩ | ⟨u, done, _⟩
  · rw [refused]
  · exact absurd (congrArg Prod.fst done) forbidden

end ElementTree

end Articulation
