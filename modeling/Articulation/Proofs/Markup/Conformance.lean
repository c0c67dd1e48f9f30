import Articulation.Load
import Articulation.Proofs.Markup.Tree
/-! What is read from a text conforms to its schema, and so does every tree that a reader, checked writes
and copies can make. -/
namespace Articulation

variable {schema : Schema}

theorem AttributeValue.type_read? {type : AttributeType} {raw : String} {value : AttributeValue}
    (read : read? type raw = some value) : value.type = type := by
  unfold read? at read
  dsimp only at read
  split at read
  · obtain ⟨_, _, rfl⟩ := Option.map_eq_some_iff.mp read
    rfl
  · obtain ⟨_, _, rfl⟩ := Option.map_eq_some_iff.mp read
    rfl
  · obtain ⟨_, _, rfl⟩ := Option.map_eq_some_iff.mp read
    rfl
  · obtain ⟨_, _, rfl⟩ := Option.map_eq_some_iff.mp read
    rfl
  · cases read
    rfl

namespace Markup

theorem attributesOf?_conforms {kind : String} {values result : Attributes}
    {raw : List (String × List Char)} (conforms : Tag.Conforms schema ⟨kind, values⟩)
    (read : attributesOf? schema kind values raw = some result) : Tag.Conforms schema ⟨kind, result⟩ := by
  fun_induction attributesOf? schema kind values raw with
  | case1 values =>
    cases read
    exact conforms
  | case2 values name raw rest _ ih => exact ih conforms read
  | case3 => contradiction
  | case4 values name raw rest type declared text _ value found ih =>
    refine ih (conforms.insert ?_) read
    rw [declared, AttributeValue.type_read? found]
  | case5 values name raw rest type _ text _ _ ih => exact ih conforms read

theorem tagOf_conforms {kind : String} {raw : RawAttributes} {tag : Tag}
    (known : schema.hasElement kind = true) (read : tagOf schema kind raw = .ok tag) :
    tag.kind = kind ∧ tag.Conforms schema := by
  unfold tagOf at read
  split at read
  · rename_i values found
    cases read
    obtain ⟨items, _, found⟩ := Option.bind_eq_some_iff.mp found
    exact ⟨rfl, attributesOf?_conforms (Tag.conforms_empty known) found⟩
  · contradiction

/-- What is kept of the open elements conforms as far as it is read, and an element is only kept inside
one that is kept and may have it. -/
def Nested (schema : Schema) : List Frame → Prop
  | [] => True
  | ⟨_, none⟩ :: frames => Nested schema frames
  | ⟨_, some (tag, children)⟩ :: frames =>
    Element.Conforms schema (.node tag children) ∧
    (∀ frame ∈ frames.head?, ∃ parent others, frame.kept = some (parent, others) ∧
      schema.allowsChild parent.kind tag.kind = true) ∧
    Nested schema frames

namespace Progress

structure Conforms (schema : Schema) (p : Progress) : Prop where
  frames : Nested schema p.frames
  document : ∀ e, p.document = some e → e.Conforms schema

theorem conforms_start : Conforms schema .start := ⟨trivial, fun _ none => by cases none⟩

theorem opened_conforms (closed : schema.Closed) {p : Progress} {name : String}
    {attributes : RawAttributes} {tag : Tag}
    (read : p.opened schema name attributes = .ok (some tag)) :
    tag.Conforms schema ∧ ∀ frame ∈ p.frames.head?, ∃ parent others,
      frame.kept = some (parent, others) ∧ schema.allowsChild parent.kind tag.kind = true := by
  unfold opened at read
  split at read
  · rename_i outside
    split at read
    · contradiction
    · split at read
      · contradiction
      · rename_i expected
        obtain ⟨_, made, same⟩ := map_eq_ok.mp read
        cases same
        have root : name = schema.kind.rootElement := Classical.not_not.mp expected
        obtain ⟨_, conforms⟩ := tagOf_conforms (root ▸ closed.root) made
        exact ⟨conforms, fun frame inside => by rw [outside] at inside; cases inside⟩
  · cases read
  · rename_i outer parent others frames inside
    split at read
    · rename_i allowed
      obtain ⟨_, made, same⟩ := map_eq_ok.mp read
      cases same
      obtain ⟨kind, conforms⟩ := tagOf_conforms (closed.hasElement allowed) made
      refine ⟨conforms, fun frame here => ?_⟩
      rw [inside] at here
      cases here
      exact ⟨parent, others, rfl, kind ▸ allowed⟩
    · cases read

theorem place_conforms {e : Element} {frames : List Frame} (conforms : e.Conforms schema)
    (nested : Nested schema frames)
    (inside : ∀ frame ∈ frames.head?, ∃ parent others, frame.kept = some (parent, others) ∧
      schema.allowsChild parent.kind e.kind = true) : (place e frames).Conforms schema := by
  cases frames with
  | nil => exact ⟨trivial, fun _ same => by cases same; exact conforms⟩
  | cons frame frames =>
    obtain ⟨name, kept⟩ := frame
    obtain ⟨parent, others, rfl, allowed⟩ := inside _ rfl
    obtain ⟨holds, around, outer⟩ := nested
    obtain ⟨tag, below⟩ := Element.conforms_node.mp holds
    refine ⟨⟨Element.conforms_node.mpr ⟨tag, ?_⟩, around, outer⟩, fun _ none => by cases none⟩
    exact List.forall_mem_cons.mpr ⟨⟨allowed, conforms⟩, below⟩

theorem close_conforms {frame : Frame} {frames : List Frame} (nested : Nested schema (frame :: frames)) :
    (close frame frames).Conforms schema := by
  obtain ⟨name, kept⟩ := frame
  cases kept with
  | none => exact ⟨nested, fun _ none => by cases none⟩
  | some kept =>
    obtain ⟨tag, children⟩ := kept
    obtain ⟨holds, around, outer⟩ := nested
    obtain ⟨conforms, below⟩ := Element.conforms_node.mp holds
    refine place_conforms (Element.conforms_node.mpr ⟨conforms, fun child member => ?_⟩) outer around
    exact below child (List.mem_reverse.mp member)

theorem step_conforms (closed : schema.Closed) {p q : Progress} {token : Token}
    (conforms : p.Conforms schema) (stepped : p.step schema token = .ok q) : q.Conforms schema := by
  cases token with
  | opening name attributes =>
    obtain ⟨kept, read, made⟩ := bind_eq_ok.mp stepped
    cases made
    refine ⟨?_, conforms.document⟩
    cases kept with
    | none => exact conforms.frames
    | some tag =>
      obtain ⟨whole, inside⟩ := opened_conforms closed read
      refine ⟨Element.conforms_node.mpr ⟨whole, fun _ member => by cases member⟩, inside, ?_⟩
      exact conforms.frames
  | empty name attributes =>
    obtain ⟨kept, read, made⟩ := bind_eq_ok.mp stepped
    cases kept with
    | none =>
      cases made
      exact conforms
    | some tag =>
      cases made
      obtain ⟨whole, inside⟩ := opened_conforms closed read
      exact place_conforms
        (Element.conforms_node.mpr ⟨whole, fun _ member => by cases member⟩) conforms.frames inside
  | closing name =>
    cases around : p.frames with
    | nil => simp [step, around] at stepped
    | cons frame frames =>
      simp only [step, around] at stepped
      split at stepped
      · cases stepped
        exact close_conforms (around ▸ conforms.frames)
      · contradiction

theorem run_conforms (closed : schema.Closed) {tokens : List Token} {p q : Progress}
    (conforms : p.Conforms schema) (read : tokens.foldlM (step schema) p = .ok q) :
    q.Conforms schema := by
  induction tokens generalizing p with
  | nil =>
    cases read
    exact conforms
  | cons token tokens ih =>
    rw [List.foldlM_cons] at read
    obtain ⟨next, stepped, read⟩ := bind_eq_ok.mp read
    exact ih (step_conforms closed conforms stepped) read

end Progress

theorem Reading.element_conforms (closed : schema.Closed) {reading : Reading} {e : Element}
    (read : reading.element schema = .ok e) : e.Conforms schema := by
  obtain ⟨p, run, read⟩ := bind_eq_ok.mp read
  have conforms := Progress.run_conforms closed Progress.conforms_start run
  split at read
  · contradiction
  · unfold Progress.finish at read
    split at read
    · contradiction
    · split at read
      · rename_i found
        cases read
        exact conforms.document _ found
      · contradiction

end Markup

/-! ### Trees -/

theorem SchemaKind.closed (kind : SchemaKind) : kind.schema.Closed := by
  cases kind with
  | mjcf => exact ⟨by decide +kernel, by decide +kernel⟩
  | urdf => exact ⟨by decide +kernel, by decide +kernel⟩

namespace ElementTree

theorem Conforms.read {text : String} {t : ElementTree} (closed : schema.Closed)
    (read : ElementTree.read schema text = .ok t) : t.Conforms := by
  rw [read_eq] at read
  obtain ⟨e, made, same⟩ := map_eq_ok.mp read
  cases same
  exact conforms_ofElement (Markup.Reading.element_conforms closed made)

theorem Conforms.deepCopy {t u : ElementTree} (conforms : t.Conforms) {id : Fin t.size}
    (copied : t.deepCopy id = .ok u) : u.Conforms := by
  rw [deepCopy_of_conforms conforms] at copied
  cases copied
  exact conforms_ofElement (conforms.element id)

/-- The trees of a schema: those read, those begun with a root alone, and what checked writes and copies
make of them. -/
inductive Made (kind : SchemaKind) : ElementTree → Prop where
  | read {text t} : ElementTree.read kind.schema text = .ok t → Made kind t
  | new {root t} : ElementTree.new kind.schema root = .ok t → Made kind t
  | add {t u} {parent : Fin t.size} {name} : Made kind t → t.add parent name = .ok u → Made kind u
  | setAttribute {t u} {id : Fin t.size} {name value} :
    Made kind t → t.setAttribute id name value = .ok u → Made kind u
  | setAttributeText {t u} {id : Fin t.size} {name raw} :
    Made kind t → t.setAttributeText id name raw = .ok u → Made kind u
  | deepCopy {t u} {id : Fin t.size} : Made kind t → t.deepCopy id = .ok u → Made kind u

variable {kind : SchemaKind} {t : ElementTree}

theorem Made.conforms (made : Made kind t) : t.Conforms := by
  induction made with
  | read read => exact .read kind.closed read
  | new made => exact .new made
  | add _ added ih => exact ih.add added
  | setAttribute _ written ih => exact ih.setAttribute written
  | setAttributeText _ written ih => exact ih.setAttributeText written
  | deepCopy _ copied ih => exact ih.deepCopy copied

theorem Made.schema_eq (made : Made kind t) : t.schema = kind.schema := by
  induction made with
  | read read =>
    rw [read_eq] at read
    obtain ⟨_, _, rfl⟩ := map_eq_ok.mp read
    rfl
  | new made => rw [(new_eq_ok made).2]; rfl
  | add _ added ih => rw [(add_eq_ok added).2, ← ih]; rfl
  | setAttribute _ written ih => rw [(setAttribute_eq_ok written).2, ← ih]; rfl
  | setAttributeText _ written ih =>
    obtain ⟨_, written⟩ := setAttributeText_eq_ok written
    rw [(setAttribute_eq_ok written).2, ← ih]
    rfl
  | deepCopy made copied ih =>
    rw [deepCopy_of_conforms made.conforms] at copied
    cases copied
    exact ih

theorem Made.root_conforms (made : Made kind t) : t.root.Conforms kind.schema :=
  made.schema_eq ▸ made.conforms.root

end ElementTree

end Articulation
