import Articulation.Proofs.Attributes
import Articulation.Proofs.Element.Layout
import Articulation.Proofs.Traversal
/-! Elements that a schema allows, and the trees that hold such elements: checked writes keep a tree among
them. -/
namespace Articulation

variable {schema : Schema}

/-- Every element type that the table mentions has a rule, that of the document element among them. -/
structure Schema.Closed (schema : Schema) : Prop where
  root : schema.hasElement schema.kind.rootElement = true
  children : ∀ row ∈ schema.rules, ∀ child ∈ row.2.children, schema.hasElement child = true

namespace Schema

theorem exists_child {parent child : String} (allowed : schema.allowsChild parent child = true) :
    ∃ row ∈ schema.rules, row.1 = parent ∧ child ∈ row.2.children := by
  unfold allowsChild at allowed
  split at allowed
  · rename_i rule found
    obtain ⟨before, after, same, _⟩ := List.lookup_eq_some_iff.mp found
    exact ⟨(parent, rule), by simp [same], rfl, by simpa using allowed⟩
  · contradiction

theorem exists_attribute {kind name : String} {type : AttributeType}
    (declared : schema.attributeType? kind name = some type) :
    ∃ row ∈ schema.rules, row.1 = kind ∧ (name, type) ∈ row.2.attributes := by
  obtain ⟨rule, found, declared⟩ := Option.bind_eq_some_iff.mp declared
  obtain ⟨before, after, same, _⟩ := List.lookup_eq_some_iff.mp found
  obtain ⟨first, rest, whole, _⟩ := List.lookup_eq_some_iff.mp declared
  exact ⟨(kind, rule), by simp [same], rfl, by simp [whole]⟩

theorem Closed.hasElement (closed : schema.Closed) {parent child : String}
    (allowed : schema.allowsChild parent child = true) : schema.hasElement child = true := by
  obtain ⟨row, listed, _, member⟩ := exists_child allowed
  exact closed.children row listed child member

end Schema

/-- The element type has a rule, and the attributes are declared by it, each in its type. -/
structure Tag.Conforms (schema : Schema) (tag : Tag) : Prop where
  known : schema.hasElement tag.kind = true
  ascending : tag.attributes.Ascending
  typed : ∀ entry ∈ tag.attributes.listed,
    schema.attributeType? tag.kind entry.1 = some entry.2.type

namespace Tag

theorem conforms_empty {kind : String} (known : schema.hasElement kind = true) :
    Conforms schema ⟨kind, .empty⟩ :=
  ⟨known, Attributes.ascending_empty, fun _ member => by cases member⟩

theorem Conforms.insert {tag : Tag} (conforms : tag.Conforms schema) {name : String}
    {value : AttributeValue} (declared : schema.attributeType? tag.kind name = some value.type) :
    Conforms schema { tag with attributes := tag.attributes.insert name value } := by
  refine ⟨conforms.known, conforms.ascending.insert name value, fun entry member => ?_⟩
  rcases Attributes.mem_listed_insert member with rfl | member
  · exact declared
  · exact conforms.typed entry member

theorem Conforms.erase {tag : Tag} (conforms : tag.Conforms schema) (name : String) :
    Conforms schema { tag with attributes := tag.attributes.erase name } := by
  refine ⟨conforms.known, conforms.ascending.erase name, fun entry member => ?_⟩
  dsimp only at member
  rw [Attributes.listed_erase] at member
  exact conforms.typed entry (List.mem_of_mem_filter member)

/-- A name has one type in an element, so it stands in one map. -/
theorem Conforms.distinct {tag : Tag} (conforms : tag.Conforms schema) : tag.attributes.Distinct := by
  refine conforms.ascending.distinct fun x here y there same => ?_
  have one := conforms.typed x here
  rw [same, conforms.typed y there] at one
  exact (Option.some.inj one).symm

/-- A value is of the type that the schema declares for its name. -/
theorem Conforms.type_of_find? {tag : Tag} (conforms : tag.Conforms schema) {name : String}
    {value : AttributeValue} (found : tag.attributes.find? name = some value) :
    schema.attributeType? tag.kind name = some value.type :=
  conforms.typed _ (Attributes.mem_of_find?_eq_some found)

end Tag

namespace Element

/-- Every element conforms by itself and stands where its parent may have it. -/
def Conforms (schema : Schema) (e : Element) : Prop :=
  ∀ x ∈ e.subtrees, x.value.Conforms schema ∧
    ∀ child ∈ x.children, schema.allowsChild x.value.kind child.value.kind = true

theorem conforms_node {tag : Tag} {children : List Element} :
    Conforms schema (.node tag children) ↔ tag.Conforms schema ∧
      ∀ child ∈ children, schema.allowsChild tag.kind child.value.kind = true ∧ child.Conforms schema := by
  constructor
  · intro all
    obtain ⟨conforms, allowed⟩ := all _ (Rose.self_mem_subtrees _)
    exact ⟨conforms, fun child member => ⟨allowed child member, fun x inside =>
      all x (Rose.mem_subtrees.mpr (.inr ⟨child, member, inside⟩))⟩⟩
  · rintro ⟨conforms, below⟩ x member
    rcases Rose.mem_subtrees.mp member with rfl | ⟨child, hanging, inside⟩
    · exact ⟨conforms, fun child member => (below child member).1⟩
    · exact (below child hanging).2 x inside

theorem Conforms.tag {e : Element} (conforms : e.Conforms schema) : e.value.Conforms schema :=
  (conforms e e.self_mem_subtrees).1

theorem Conforms.subtree {e x : Element} (conforms : e.Conforms schema) (member : x ∈ e.subtrees) :
    x.Conforms schema :=
  fun _ inner => conforms _ (Rose.subtrees_trans inner member)

theorem Conforms.child {e child : Element} (conforms : e.Conforms schema) (member : child ∈ e.children) :
    schema.allowsChild e.kind child.kind = true ∧ child.Conforms schema := by
  cases e with
  | node tag children => exact (conforms_node.mp conforms).2 child member

end Element

namespace ElementTree

variable {t u : ElementTree}

/-- Every element conforms by itself, and the elements below it are elements that it may have. -/
structure Conforms (t : ElementTree) : Prop where
  rooted : 0 < t.size
  tags : ∀ id < t.size, (t.tag id).Conforms t.schema
  below : ∀ id < t.size, ∀ c ∈ t.below id,
    c < t.size ∧ t.schema.allowsChild (t.tag id).kind (t.tag c).kind = true

theorem value_shape (t : ElementTree) (fuel id : Nat) : (t.shape fuel id).value = id := by
  cases fuel <;> rfl

theorem Conforms.map_shape (conforms : t.Conforms) (fuel : Nat) {id : Nat} (inside : id < t.size) :
    Element.Conforms t.schema ((t.shape fuel id).map t.tag) := by
  induction fuel generalizing id with
  | zero => exact Element.conforms_node.mpr ⟨conforms.tags id inside, fun _ member => by cases member⟩
  | succ fuel ih =>
    rw [shape_succ, Rose.map, Rose.mapAll_eq, List.map_map]
    refine Element.conforms_node.mpr ⟨conforms.tags id inside, fun child member => ?_⟩
    obtain ⟨c, listed, rfl⟩ := List.mem_map.mp member
    obtain ⟨bound, allowed⟩ := conforms.below id inside c listed
    refine ⟨?_, ih bound⟩
    rw [Function.comp_apply, Rose.value_map, value_shape]
    exact allowed

theorem Conforms.element (conforms : t.Conforms) (id : Fin t.size) :
    (t.element id).Conforms t.schema :=
  conforms.map_shape _ id.isLt

theorem Conforms.root (conforms : t.Conforms) : t.root.Conforms t.schema :=
  conforms.map_shape _ conforms.rooted

theorem conforms_ofElement {e : Element} (conforms : e.Conforms schema) :
    (ofElement schema e).Conforms := by
  have sized := size_ofElement schema e
  have held : ∀ id < (ofElement schema e).size, ∃ x ∈ e.subtrees, (ofElement schema e).Holds id x := by
    intro id inside
    have placed := (holds_ofElement schema e).exists_mem (sized ▸ inside)
    rwa [Nat.zero_add] at placed
  refine ⟨(holds_ofElement schema e).lt, fun id inside => ?_, fun id inside c listed => ?_⟩
  · obtain ⟨x, member, here⟩ := held id inside
    rw [here.tag]
    exact (conforms x member).1
  · obtain ⟨x, member, here⟩ := held id inside
    obtain ⟨child, hanging, there⟩ := exists_of_forall₂ here.below listed
    rw [here.tag, there.tag]
    exact ⟨there.lt, (conforms x member).2 child hanging⟩

/-! ### Writes -/

theorem checkChild_eq_ok {parent kind : String} :
    checkChild schema parent kind = .ok () ↔
      schema.hasElement kind = true ∧ schema.allowsChild parent kind = true := by
  unfold checkChild
  by_cases known : schema.hasElement kind = true <;>
    by_cases allowed : schema.allowsChild parent kind = true <;> simp [known, allowed]

theorem checkAttribute_eq_ok {kind name : String} {value : AttributeValue} :
    checkAttribute schema kind name value = .ok () ↔
      schema.attributeType? kind name = some value.type := by
  unfold checkAttribute
  split
  · rename_i undeclared
    simp [undeclared]
  · rename_i expected declared
    rw [declared, Option.some.injEq, @eq_comm _ expected]
    by_cases same : value.type = expected <;> simp [same]

/-- A check that fails writes nothing, and nothing is written behind it. -/
theorem run_checked {α : Type} (check : Except SchemaViolation Unit) (next : Writing α) (t : ElementTree) :
    (MonadExcept.ofExcept check >>= fun _ => next).run.run t =
      match check with
      | .ok () => next.run.run t
      | .error violation => (.error violation, t) := by
  cases check <;> rfl

theorem run_add (t : ElementTree) (parent : Nat) (kind : String) :
    (Writing.add parent kind).run.run t =
      match checkChild t.schema (t.tag parent).kind kind with
      | .ok () => (.ok t.size, t.push parent kind)
      | .error violation => (.error violation, t) :=
  run_checked _ (do set (t.push parent kind); return t.size) t

theorem run_setAttribute (t : ElementTree) (id : Nat) (name : String) (value : AttributeValue) :
    (Writing.setAttribute id name value).run.run t =
      match checkAttribute t.schema (t.tag id).kind name value with
      | .ok () => (.ok (), t.insertAttribute id name value)
      | .error violation => (.error violation, t) :=
  run_checked _ (set (t.insertAttribute id name value)) t

theorem run_setAttributeText (t : ElementTree) (id : Nat) (name raw : String) :
    (Writing.setAttributeText id name raw).run.run t =
      match t.schema.attributeType? (t.tag id).kind name with
      | none => (.error (.notAllowedAttribute (t.tag id).kind name), t)
      | some expected =>
        match AttributeValue.read? expected raw with
        | none => (.error (.attributeType (t.tag id).kind name expected), t)
        | some value => (Writing.setAttribute id name value).run.run t := by
  show (match t.schema.attributeType? (t.tag id).kind name with
    | none => throw (.notAllowedAttribute (t.tag id).kind name)
    | some expected =>
      match AttributeValue.read? expected raw with
      | none => throw (.attributeType (t.tag id).kind name expected)
      | some value => Writing.setAttribute id name value : Writing Unit).run.run t = _
  split
  · rfl
  · split <;> rfl

theorem new_eq_ok {kind : String} (made : new schema kind = .ok u) :
    schema.hasElement kind = true ∧ u = withRoot schema kind := by
  unfold new at made
  split at made
  · rename_i known
    exact ⟨known, (Except.ok.inj made).symm⟩
  · contradiction

theorem add_eq_ok {parent : Fin t.size} {kind : String} (added : t.add parent kind = .ok u) :
    checkChild t.schema (t.tag parent).kind kind = .ok () ∧ u = t.push parent kind := by
  unfold add written at added
  rw [run_add] at added
  cases checked : checkChild t.schema (t.tag parent).kind kind with
  | error violation => rw [checked] at added; contradiction
  | ok _ =>
    rw [checked] at added
    exact ⟨rfl, (Except.ok.inj added).symm⟩

theorem setAttribute_eq_ok {id : Fin t.size} {name : String} {value : AttributeValue}
    (written : t.setAttribute id name value = .ok u) :
    checkAttribute t.schema (t.tag id).kind name value = .ok () ∧ u = t.insertAttribute id name value := by
  unfold setAttribute ElementTree.written at written
  rw [run_setAttribute] at written
  cases checked : checkAttribute t.schema (t.tag id).kind name value with
  | error violation => rw [checked] at written; contradiction
  | ok _ =>
    rw [checked] at written
    exact ⟨rfl, (Except.ok.inj written).symm⟩

theorem setAttributeText_eq_ok {id : Fin t.size} {name raw : String}
    (written : t.setAttributeText id name raw = .ok u) :
    ∃ value, t.setAttribute id name value = .ok u := by
  unfold setAttributeText ElementTree.written at written
  rw [run_setAttributeText] at written
  split at written
  · rename_i done
    split at done
    · cases done
    · split at done
      · cases done
      · rename_i value _
        refine ⟨value, ?_⟩
        unfold setAttribute ElementTree.written
        rw [done]
        exact written
  · contradiction

/-! ### What writes change -/

section

variable {parent : Nat} (inside : parent < t.size) (kind : String)

include inside

theorem node_push (id : Nat) :
    (t.push parent kind).nodes[id]? = if id = t.size then some ⟨⟨kind, .empty⟩, some parent, []⟩ else
      if parent = id then t.nodes[id]?.map fun node => { node with children := node.children ++ [t.size] }
      else t.nodes[id]? := by
  have last : parent ≠ t.size := Nat.ne_of_lt inside
  unfold push size at *
  rw [Array.getElem?_modify, Array.getElem?_push]
  by_cases new : id = t.nodes.size
  · rw [if_pos new, if_pos new, if_neg (new ▸ last)]
  · rw [if_neg new, if_neg new]

theorem tag_push (id : Nat) :
    (t.push parent kind).tag id = if id = t.size then ⟨kind, .empty⟩ else t.tag id := by
  rw [tag, node_push inside, tag]
  split
  · rfl
  · split
    · cases t.nodes[id]? <;> rfl
    · rfl

theorem below_push (id : Nat) :
    (t.push parent kind).below id = if id = t.size then [] else
      if parent = id then t.below id ++ [t.size] else t.below id := by
  rw [below, node_push inside, below]
  split
  · rfl
  · split
    · rename_i same
      have inside : id < t.nodes.size := same ▸ inside
      rw [Array.getElem?_eq_getElem inside]
      rfl
    · rfl

end

theorem size_push (t : ElementTree) (parent : Nat) (kind : String) :
    (t.push parent kind).size = t.size + 1 := by
  simp [push, size]

theorem size_insertAttribute (t : ElementTree) (id : Nat) (name : String) (value : AttributeValue) :
    (t.insertAttribute id name value).size = t.size := by
  simp [insertAttribute, size]

theorem tag_insertAttribute {id : Nat} (inside : id < t.size) (name : String) (value : AttributeValue)
    (other : Nat) :
    (t.insertAttribute id name value).tag other = if id = other then
      { t.tag other with attributes := (t.tag other).attributes.insert name value } else t.tag other := by
  rw [tag, insertAttribute, Array.getElem?_modify]
  split
  · rename_i same
    have inside : other < t.nodes.size := same ▸ inside
    rw [tag, Array.getElem?_eq_getElem inside]
    rfl
  · rfl

theorem below_insertAttribute (id : Nat) (name : String) (value : AttributeValue) (other : Nat) :
    (t.insertAttribute id name value).below other = t.below other := by
  rw [below, insertAttribute, Array.getElem?_modify, below]
  split
  · cases t.nodes[other]? <;> rfl
  · rfl

/-! ### What writes keep -/

theorem Conforms.withRoot {kind : String} (known : schema.hasElement kind = true) :
    (withRoot schema kind).Conforms := by
  refine conforms_ofElement (e := .node ⟨kind, .empty⟩ [])
    (Element.conforms_node.mpr ⟨Tag.conforms_empty known, ?_⟩)
  intro child member
  cases member

/-- Below a node that was there before stand those that stood there, and at most the new one. -/
theorem Conforms.child_push (conforms : t.Conforms) {parent : Nat} (inside : parent < t.size)
    {kind : String} (allowed : t.schema.allowsChild (t.tag parent).kind kind = true) {id c : Nat}
    (before : id < t.size) (listed : c ∈ (t.push parent kind).below id) :
    c < t.size + 1 ∧
      t.schema.allowsChild (t.tag id).kind ((t.push parent kind).tag c).kind = true := by
  have kept (listed : c ∈ t.below id) : c < t.size + 1 ∧
      t.schema.allowsChild (t.tag id).kind ((t.push parent kind).tag c).kind = true := by
    obtain ⟨bound, allowed⟩ := conforms.below id before c listed
    rw [tag_push inside, if_neg (Nat.ne_of_lt bound)]
    exact ⟨by omega, allowed⟩
  rw [below_push inside, if_neg (Nat.ne_of_lt before)] at listed
  split at listed
  · rename_i here
    rcases List.mem_append.mp listed with listed | last
    · exact kept listed
    · obtain rfl := List.mem_singleton.mp last
      rw [tag_push inside, if_pos rfl, ← here]
      exact ⟨by omega, allowed⟩
  · exact kept listed

theorem Conforms.push (conforms : t.Conforms) {parent : Nat} (inside : parent < t.size) {kind : String}
    (known : t.schema.hasElement kind = true)
    (allowed : t.schema.allowsChild (t.tag parent).kind kind = true) : (t.push parent kind).Conforms := by
  have sized := size_push t parent kind
  -- a node is one that was there before or the new one, which is last and has none below
  refine ⟨by omega, fun id bound => ?_, fun id bound c listed => ?_⟩
  · rcases Nat.lt_succ_iff_lt_or_eq.mp (sized ▸ bound) with before | rfl
    · rw [tag_push inside, if_neg (Nat.ne_of_lt before)]
      exact conforms.tags id before
    · rw [tag_push inside, if_pos rfl]
      exact Tag.conforms_empty known
  · rcases Nat.lt_succ_iff_lt_or_eq.mp (sized ▸ bound) with before | rfl
    · rw [sized, tag_push inside kind id, if_neg (Nat.ne_of_lt before)]
      exact conforms.child_push inside allowed before listed
    · rw [below_push inside, if_pos rfl] at listed
      cases listed

theorem Conforms.insertAttribute (conforms : t.Conforms) {id : Nat} (inside : id < t.size) {name : String}
    {value : AttributeValue} (declared : t.schema.attributeType? (t.tag id).kind name = some value.type) :
    (t.insertAttribute id name value).Conforms := by
  have sized := size_insertAttribute t id name value
  have kind : ∀ other, ((t.insertAttribute id name value).tag other).kind = (t.tag other).kind :=
    fun other => by
      rw [tag_insertAttribute inside]
      split <;> rfl
  refine ⟨sized ▸ conforms.rooted, fun other bound => ?_, fun other bound c listed => ?_⟩
  · have before := conforms.tags other (sized ▸ bound)
    rw [tag_insertAttribute inside]
    split
    · rename_i here
      exact before.insert (here ▸ declared)
    · exact before
  · rw [below_insertAttribute] at listed
    rw [sized, kind, kind]
    exact conforms.below other (sized ▸ bound) c listed

theorem Conforms.new {kind : String} (made : ElementTree.new schema kind = .ok u) : u.Conforms := by
  obtain ⟨known, rfl⟩ := new_eq_ok made
  exact .withRoot known

theorem Conforms.add (conforms : t.Conforms) {parent : Fin t.size} {kind : String}
    (added : t.add parent kind = .ok u) : u.Conforms := by
  obtain ⟨checked, rfl⟩ := add_eq_ok added
  obtain ⟨known, allowed⟩ := checkChild_eq_ok.mp checked
  exact conforms.push parent.isLt known allowed

theorem Conforms.setAttribute (conforms : t.Conforms) {id : Fin t.size} {name : String}
    {value : AttributeValue} (written : t.setAttribute id name value = .ok u) : u.Conforms := by
  obtain ⟨checked, rfl⟩ := setAttribute_eq_ok written
  exact conforms.insertAttribute id.isLt (checkAttribute_eq_ok.mp checked)

theorem Conforms.setAttributeText (conforms : t.Conforms) {id : Fin t.size} {name raw : String}
    (written : t.setAttributeText id name raw = .ok u) : u.Conforms := by
  obtain ⟨value, written⟩ := setAttributeText_eq_ok written
  exact conforms.setAttribute written

/-! ### Acceptance -/

theorem checkTag_of_conforms {tag : Tag} (conforms : tag.Conforms schema) :
    checkTag schema tag = .ok () := by
  exact forM_eq_ok.mpr fun entry listed => checkAttribute_eq_ok.mpr (conforms.typed entry listed)

theorem checkAllBelow_eq (schema : Schema) (parent : String) (elements : List Element) :
    checkAllBelow schema parent elements = elements.forM (checkBelow schema parent) := by
  induction elements with
  | nil => rfl
  | cons e rest ih =>
    rw [checkAllBelow, ih]
    rfl

theorem checkBelow_of_conforms {e : Element} (conforms : e.Conforms schema) {parent : String}
    (allowed : schema.allowsChild parent e.kind = true) : checkBelow schema parent e = .ok () := by
  induction e using Rose.induction generalizing parent with
  | step tag children ih =>
    have here : checkChild schema parent tag.kind = .ok () :=
      checkChild_eq_ok.mpr ⟨conforms.tag.known, allowed⟩
    have below : checkAllBelow schema tag.kind children = .ok () := by
      rw [checkAllBelow_eq]
      refine forM_eq_ok.mpr fun child member => ?_
      obtain ⟨allowed, inner⟩ := conforms.child member
      exact ih child member inner allowed
    have own : checkTag schema tag = .ok () := checkTag_of_conforms conforms.tag
    rw [checkBelow, here, own, below]
    rfl

/-- Checked writes can build every element that conforms. -/
theorem ofElement?_of_conforms {e : Element} (conforms : e.Conforms schema) :
    ofElement? schema e = .ok (ofElement schema e) := by
  have below : checkAllBelow schema e.kind e.children = .ok () := by
    rw [checkAllBelow_eq]
    refine forM_eq_ok.mpr fun child member => ?_
    obtain ⟨allowed, inner⟩ := conforms.child member
    exact checkBelow_of_conforms inner allowed
  have known : schema.hasElement e.kind = true := conforms.tag.known
  have own : checkTag schema e.value = .ok () := checkTag_of_conforms conforms.tag
  rw [ofElement?, known, own, below]
  rfl

end ElementTree

end Articulation
