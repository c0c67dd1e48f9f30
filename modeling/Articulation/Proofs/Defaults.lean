import Articulation.Proofs.Markup.Conformance
/-! Which value an element resolves an attribute to: its own, else the last one that a default block of
its class gives its type, else the last one that a topmost block gives it. -/
namespace Articulation

theorem NameMap.find?_modify {α : Type} (m : NameMap α) (name key : String) (start : α) (f : α → α) :
    (m.modify name start f).find? key =
      if key = name then some (f ((m.find? name).getD start)) else m.find? key :=
  NameMap.find?_insert m name key _

namespace Defaults

/-! ### What elements set -/

/-- The values that elements of one type set for an attribute, in order. -/
def valuesSet (elements : List Element) (kind name : String) : List AttributeValue :=
  (elements.filter fun e => e.kind == kind).filterMap fun e => e.own name

theorem valuesSet_cons (e : Element) (rest : List Element) (kind name : String) :
    valuesSet (e :: rest) kind name =
      (if e.kind = kind then e.own name else none).toList ++ valuesSet rest kind name := by
  unfold valuesSet
  by_cases same : e.kind = kind
  · rw [List.filter_cons_of_pos (by simp [same]), if_pos same, List.filterMap_cons]
    cases e.own name <;> rfl
  · rw [List.filter_cons_of_neg (by simp [same]), if_neg same]
    rfl

/-- Elements with attributes each once, of which default blocks have none that cascades. -/
def Plain (elements : List Element) : Prop :=
  ∀ e : Element, e ∈ elements → e.attributes.Distinct ∧
    (e.kind = "default" → ∀ name, cascades name = true → e.own name = none)

/-! ### One table -/

/-- The value that a table has for an attribute of one type. -/
def valueIn (table : DefaultTable) (kind name : String) : Option AttributeValue :=
  (table.find? kind).bind (·.find? name)

theorem find?_merge {e : Element} (distinct : e.attributes.Distinct) (values : Values) (name : String) :
    (merge values e).find? name =
      (if cascades name then e.own name else none).or (values.find? name) := by
  rw [Element.own, Attributes.lookup, Attributes.find?_eq_lookup]
  exact NameMap.find?_foldl_insert distinct cascades values name

/-- An element writes what it sets over what is there; a block writes nothing. -/
theorem valueIn_child {e : Element} (distinct : e.attributes.Distinct)
    (blank : e.kind = "default" → ∀ name, cascades name = true → e.own name = none)
    (table : DefaultTable) (kind name : String) :
    valueIn (if e.kind = "default" then table
        else table.modify e.kind .empty fun values => merge values e) kind name =
      (if cascades name ∧ e.kind = kind then e.own name else none).or (valueIn table kind name) := by
  by_cases block : e.kind = "default"
  · rw [if_pos block]
    split
    · rename_i cascading
      rw [blank block name cascading.1, Option.none_or]
    · rw [Option.none_or]
  · rw [if_neg block, valueIn, NameMap.find?_modify]
    by_cases same : kind = e.kind
    · subst same
      rw [if_pos rfl, Option.bind_some, find?_merge distinct, valueIn]
      cases table.find? e.kind <;> simp
    · rw [if_neg same, if_neg (fun both => same both.2.symm), Option.none_or]
      rfl

theorem valueIn_addValues {elements : List Element} (plain : Plain elements) (table : DefaultTable)
    (kind name : String) :
    valueIn (addValues table elements) kind name =
      (if cascades name then (valuesSet elements kind name).getLast? else none).or
        (valueIn table kind name) := by
  induction elements generalizing table with
  | nil => simp [addValues, valuesSet]
  | cons e rest ih =>
    obtain ⟨⟨distinct, blank⟩, plain⟩ := List.forall_mem_cons.mp plain
    rw [addValues, List.foldl_cons, ← addValues, ih plain, valueIn_child distinct blank, valuesSet_cons,
      List.getLast?_append]
    by_cases cascading : cascades name = true
    · by_cases same : e.kind = kind
      · simp only [cascading, same, and_self, if_true, ← Option.or_assoc]
        cases e.own name <;> rfl
      · simp [cascading, same]
    · simp [cascading]

/-! ### The tables of all classes -/

def tableOf (d : Defaults) (className : String) : DefaultTable := (d.byClass.find? className).getD .empty

theorem classValue?_eq (d : Defaults) (className kind name : String) :
    d.classValue? className kind name = valueIn (d.tableOf className) kind name := by
  unfold classValue? tableOf valueIn
  cases d.byClass.find? className <;> rfl

/-- Adds what a block itself gives to its class. -/
def addOwn (d : Defaults) (block : Element) : Defaults :=
  match block.own.string? "class" with
  | some name =>
    { d with byClass := d.byClass.modify name .empty fun table => addValues table block.children }
  | none => d

theorem addBlock_eq (d : Defaults) (block : Element) :
    addBlock d block = addBlocks (d.addOwn block) block.children := by
  cases block with
  | node tag children =>
    rw [addBlock]
    rfl

theorem tableOf_addOwn (d : Defaults) (block : Element) (className : String) :
    (d.addOwn block).tableOf className =
      if block.own.string? "class" = some className then addValues (d.tableOf className) block.children
      else d.tableOf className := by
  unfold addOwn tableOf
  split
  · rename_i name named
    rw [NameMap.find?_modify]
    by_cases same : className = name
    · subst same
      simp [named]
    · simp [named, same, Ne.symm same]
  · rename_i unnamed
    simp [unnamed]

theorem addValues_append (table : DefaultTable) (elements others : List Element) :
    addValues table (elements ++ others) = addValues (addValues table elements) others :=
  List.foldl_append

/-- What blocks add to a class is what those of the class hold. -/
theorem tableOf_foldl (blocks : List Element) (d : Defaults) (className : String) :
    (blocks.foldl addOwn d).tableOf className = addValues (d.tableOf className)
      ((blocks.filter fun block : Element =>
        block.own.string? "class" == some className).flatMap Rose.children) := by
  induction blocks generalizing d with
  | nil => rfl
  | cons block rest ih =>
    rw [List.foldl_cons, ih, tableOf_addOwn]
    by_cases same : block.own.string? "class" = some className
    · rw [if_pos same, List.filter_cons_of_pos (by simp [same]), List.flatMap_cons, addValues_append]
    · rw [if_neg same, List.filter_cons_of_neg (by simp [same])]

/-! ### Collection order -/

def isBlock (e : Element) : Bool := e.kind == "default"

def outerBlocks (root : Element) : List Element := root.childrenOf "default"

/-- The blocks below the topmost ones, at any depth: those of an earlier topmost block first, and each
before those nested in it. -/
def innerBlocks (root : Element) : List Element :=
  (outerBlocks root).flatMap fun block => block.descendants.filter isBlock

/-- The nested blocks of a class. -/
def blocksOf (root : Element) (className : String) : List Element :=
  (innerBlocks root).filter fun block => block.own.string? "class" == some className

/-- Blocks stand in blocks only. -/
def BlocksInBlocks (e : Element) : Prop :=
  ∀ x : Element, x ∈ e.subtrees → ∀ child : Element, child ∈ x.children →
    child.kind = "default" → x.kind = "default"

theorem BlocksInBlocks.child {e child : Element} (nested : BlocksInBlocks e) (member : child ∈ e.children) :
    BlocksInBlocks child := by
  intro x inside
  exact nested x (Rose.mem_subtrees.mpr (.inr ⟨child, member, inside⟩))

theorem no_blocks {e : Element} (nested : BlocksInBlocks e) (other : e.kind ≠ "default") :
    e.subtrees.filter isBlock = [] := by
  induction e using Rose.induction with
  | step tag children ih =>
    rw [Rose.subtrees_eq, List.filter_cons_of_neg (by simpa [isBlock] using other), Rose.subtreesAll_eq,
      List.filter_flatMap, List.flatMap_eq_nil_iff]
    intro child member
    refine ih child member (nested.child member) fun block => other ?_
    exact nested _ (Rose.self_mem_subtrees _) child member block

theorem addBlocks_eq_foldl {elements : List Element}
    (each : ∀ e : Element, e ∈ elements → ∀ d,
      (if e.kind = "default" then addBlock d e else d) = (e.subtrees.filter isBlock).foldl addOwn d)
    (d : Defaults) :
    addBlocks d elements = ((Rose.subtreesAll elements).filter isBlock).foldl addOwn d := by
  induction elements generalizing d with
  | nil => rfl
  | cons e rest ih =>
    obtain ⟨first, later⟩ := List.forall_mem_cons.mp each
    rw [addBlocks, first, ih later, Rose.subtreesAll, List.filter_append, List.foldl_append]

/-- The blocks in an element are added one by one in pre-order. -/
theorem addBlock_eq_foldl {e : Element} (nested : BlocksInBlocks e) (d : Defaults) :
    (if e.kind = "default" then addBlock d e else d) = (e.subtrees.filter isBlock).foldl addOwn d := by
  induction e using Rose.induction generalizing d with
  | step tag children ih =>
    by_cases block : tag.kind = "default"
    · have below := addBlocks_eq_foldl fun child member => ih child member (nested.child member)
      have here : isBlock (.node tag children) = true := beq_iff_eq.mpr block
      rw [Rose.subtrees_eq, List.filter_cons_of_pos here, List.foldl_cons, Rose.children_node, ← below]
      exact (if_pos block).trans (addBlock_eq d _)
    · rw [no_blocks nested block]
      exact if_neg block

section

variable {root : Element}
  (nested : ∀ block : Element, block ∈ outerBlocks root → ∀ child : Element, child ∈ block.children →
    BlocksInBlocks child)

include nested

theorem collected : (outerBlocks root).foldl (fun d block => addBlocks d block.children) empty =
    (innerBlocks root).foldl addOwn empty := by
  rw [innerBlocks, List.foldl_flatMap]
  refine List.foldl_ext _ _ _ fun d block member => ?_
  have whole := List.cons.inj ((Rose.subtrees_eq block).symm.trans (Element.subtrees_eq_cons block))
  rw [addBlocks_eq_foldl fun child below => addBlock_eq_foldl (nested block member child below), whole.2]

theorem tableOf_ofDocument (className : String) :
    (ofDocument root).tableOf className =
      addValues .empty ((blocksOf root className).flatMap Rose.children) := by
  have whole : (ofDocument root).byClass = ((innerBlocks root).foldl addOwn empty).byClass := by
    rw [← collected nested]
    rfl
  have table := tableOf_foldl (innerBlocks root) empty className
  rw [tableOf] at table ⊢
  rw [whole, table]
  rfl

end

theorem unclassed_ofDocument (root : Element) :
    (ofDocument root).unclassed = addValues .empty ((outerBlocks root).flatMap Rose.children) := by
  rw [addValues, List.foldl_flatMap]
  rfl

/-! ### Documents of a schema -/

/-- What the tables of both schemas say of default blocks: they stand in each other or in the document
element, which stands in nothing, and their only attribute is the class. -/
theorem block_rules (kind : SchemaKind) : ∀ row ∈ kind.schema.rules,
    ("default" ∈ row.2.children → row.1 = "default" ∨ row.1 = kind.rootElement) ∧
    kind.rootElement ∉ row.2.children ∧
    (row.1 = "default" → ∀ a ∈ row.2.attributes, a.1 = "class") := by
  cases kind with
  | mjcf => decide +kernel
  | urdf => decide +kernel

variable {kind : SchemaKind}

theorem plain_of_conforms {elements : List Element}
    (conforms : ∀ e : Element, e ∈ elements → e.Conforms kind.schema) : Plain elements := by
  intro e member
  have tag := (conforms e member).tag
  refine ⟨tag.distinct, fun block name cascading => ?_⟩
  cases found : e.own name with
  | none => rfl
  | some value =>
    obtain ⟨row, listed, same, declared⟩ := Schema.exists_attribute (tag.type_of_find? found)
    obtain rfl := (block_rules kind row listed).2.2 (same.trans block) _ declared
    contradiction

theorem blocksInBlocks_of_conforms {e : Element} (conforms : e.Conforms kind.schema)
    (inner : e.kind ≠ kind.rootElement) : BlocksInBlocks e := by
  intro x inside child member block
  have allowed := (conforms x inside).2 child member
  rw [show child.value.kind = "default" from block] at allowed
  obtain ⟨row, listed, same, below⟩ := Schema.exists_child allowed
  rcases (block_rules kind row listed).1 below with block | root
  · exact same.symm.trans block
  · rcases Rose.exists_parent inside with rfl | ⟨parent, outer, hanging⟩
    · exact absurd (same.symm.trans root) inner
    · obtain ⟨other, known, _, misplaced⟩ := Schema.exists_child ((conforms parent outer).2 x hanging)
      rw [← same, root] at misplaced
      exact absurd misplaced (block_rules kind other known).2.1

theorem valueIn_empty (kind name : String) : valueIn .empty kind name = none := rfl

theorem plain_below {blocks : List Element}
    (each : ∀ block : Element, block ∈ blocks → block.Conforms kind.schema) :
    Plain (blocks.flatMap Rose.children) := by
  refine @plain_of_conforms kind _ fun e member => ?_
  obtain ⟨block, listed, below⟩ := List.mem_flatMap.mp member
  exact ((each block listed).child below).2

section

variable {root : Element} (conforms : root.Conforms kind.schema)

include conforms

theorem conforms_outer {block : Element} (member : block ∈ outerBlocks root) :
    block.Conforms kind.schema :=
  (conforms.child (List.mem_of_mem_filter member)).2

theorem conforms_inner {block : Element} (member : block ∈ innerBlocks root) :
    block.Conforms kind.schema := by
  obtain ⟨outer, top, inside⟩ := List.mem_flatMap.mp member
  refine (conforms_outer conforms top).subtree ?_
  rw [Element.subtrees_eq_cons]
  exact List.mem_cons_of_mem _ (List.mem_of_mem_filter inside)

theorem nested_of_conforms (block : Element) (top : block ∈ outerBlocks root) (child : Element)
    (below : child ∈ block.children) : BlocksInBlocks child := by
  obtain ⟨allowed, inner⟩ := (conforms_outer conforms top).child below
  refine blocksInBlocks_of_conforms inner fun root => ?_
  obtain ⟨row, listed, _, misplaced⟩ := Schema.exists_child allowed
  exact (block_rules kind row listed).2.1 (root ▸ misplaced)

theorem classValue?_ofDocument (className type name : String) :
    (ofDocument root).classValue? className type name =
      if cascades name then
        (valuesSet ((blocksOf root className).flatMap Rose.children) type name).getLast?
      else none := by
  have nested := nested_of_conforms conforms
  have plain := @plain_below kind (blocksOf root className) fun block member =>
    conforms_inner conforms (List.mem_of_mem_filter member)
  rw [classValue?_eq, tableOf_ofDocument nested, valueIn_addValues plain, valueIn_empty, Option.or_none]

theorem unclassedValue?_ofDocument (type name : String) :
    (ofDocument root).unclassedValue? type name =
      if cascades name then
        (valuesSet ((outerBlocks root).flatMap Rose.children) type name).getLast?
      else none := by
  have plain := @plain_below kind (outerBlocks root) fun block member =>
    conforms_outer conforms member
  rw [unclassedValue?, ← valueIn, unclassed_ofDocument, valueIn_addValues plain, valueIn_empty,
    Option.or_none]

end

/-- Elements resolve their attributes by the same rule in every tree that a text, checked writes and
copies can make: an element's own value stands first; names and classes resolve no further; behind it
stands the last value that a nested block of the element's class sets for the type, the class being the
element's own or else inherited; and at last the last value that a topmost block sets for the type. Where
no block of the class itself sets a value, blocks around them give none. -/
theorem lookup_resolves {t : ElementTree} (made : ElementTree.Made kind t) (e : Element)
    (inherited : Option String) (name : String) :
    (Scope.of (ofDocument t.root) inherited e).lookup name =
      (e.own name).or (if name = "name" ∨ name = "class" then none else
        (((e.own.string? "class").or inherited).bind fun className =>
          (valuesSet ((blocksOf t.root className).flatMap Rose.children) e.kind name).getLast?).or
        (valuesSet ((outerBlocks t.root).flatMap Rose.children) e.kind name).getLast?) := by
  have conforms := made.root_conforms
  rw [Scope.lookup]
  simp only [Scope.of, classValue?_ofDocument conforms, unclassedValue?_ofDocument conforms]
  by_cases cascading : cascades name = true
  · have other : ¬ (name = "name" ∨ name = "class") := by
      simpa [cascades, not_or] using cascading
    simp only [cascading, if_true, if_neg other]
  · have same : name = "name" ∨ name = "class" := by
      simpa [cascades, Classical.or_iff_not_imp_left] using cascading
    simp [cascading, same]

/-- A document in which the block of one class stands inside that of another, and its tree. -/
def nestedClassesText : String :=
  "<mujoco><default><geom type='box'/><default class='limb'><geom type='capsule'/>"
    ++ "<default class='hand'><geom mesh='palm'/></default></default></default></mujoco>"

def nestedClasses : ElementTree :=
  let geom (name value : String) : Element := .node ⟨"geom", .ofList [(name, .string value)]⟩ []
  let block (name : String) (children : List Element) : Element :=
    .node ⟨"default", .ofList [("class", .string name)]⟩ children
  .ofElement Schema.mjcf (.node ⟨"mujoco", .empty⟩ [.node ⟨"default", .empty⟩ [geom "type" "box",
    block "limb" [geom "type" "capsule", block "hand" [geom "mesh" "palm"]]]])

/-- A geom of the inner class has what its own block and the topmost one set, and nothing of the outer
class. -/
theorem lookup_resolves_inner :
    ElementTree.read Schema.mjcf nestedClassesText = .ok nestedClasses ∧
    (Scope.of (ofDocument nestedClasses.root) (some "hand") (.node ⟨"geom", .empty⟩ [])).lookup "mesh" =
      some (.string "palm") ∧
    (Scope.of (ofDocument nestedClasses.root) (some "hand") (.node ⟨"geom", .empty⟩ [])).lookup "type" =
      some (.string "box") := by
  have read : ElementTree.read SchemaKind.mjcf.schema nestedClassesText = .ok nestedClasses := by
    decide +kernel
  have resolved := lookup_resolves (.read read) (.node ⟨"geom", .empty⟩ []) (some "hand")
  exact ⟨read, (resolved "mesh").trans (by decide +kernel), (resolved "type").trans (by decide +kernel)⟩

end Defaults

end Articulation
