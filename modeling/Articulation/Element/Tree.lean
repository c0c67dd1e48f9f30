import Articulation.Element.Basic
import Articulation.Markup.Error
import Articulation.Schema.Basic
/-! Element trees that are written step by step. Nodes are numbered in the order they were added, the
root is 0, and writes are checked against the schema; a reader of markup, which has checks of its own,
writes unchecked. A tree can be viewed as an element, which forgets the numbers, and laid out from one in
pre-order. -/
namespace Articulation

/-- One element of a tree, with the numbers of its parent and of its children. -/
structure Node where
  tag : Tag
  parent : Option Nat
  children : List Nat
deriving DecidableEq, Repr

structure ElementTree where
  schema : Schema
  nodes : Array Node
deriving DecidableEq, Repr

namespace ElementTree

def size (t : ElementTree) : Nat := t.nodes.size

/-- Looks up a number and the numbers below it, to a depth of `fuel`. -/
def shape (t : ElementTree) : Nat → Nat → Rose Nat
  | 0, id => .node id []
  | fuel + 1, id => .node id (((t.nodes[id]?.map Node.children).getD []).map (t.shape fuel))

/-- The numbers of an element and of all elements below it, as a tree. No path is longer than the
number of nodes. -/
def numbers (t : ElementTree) (id : Nat) : Rose Nat := t.shape t.size id

def tag (t : ElementTree) (id : Nat) : Tag := (t.nodes[id]?.map Node.tag).getD ⟨"", .empty⟩

def element (t : ElementTree) (id : Nat) : Element := (t.numbers id).map t.tag

def root (t : ElementTree) : Element := t.element 0

def descendants (t : ElementTree) (id : Nat) : List Nat :=
  (Rose.walk (t.numbers id).children).map Rose.value

/-! ### Laying out an element -/

/-- The numbers of siblings in pre-order, the first of them `next`. -/
def siblingNumbers (next : Nat) : List Element → List Nat
  | [] => []
  | e :: rest => next :: siblingNumbers (next + e.size) rest

mutual
/-- The nodes of an element whose own number is `next`, in pre-order. -/
def layout (parent : Option Nat) (next : Nat) : Element → List Node
  | .node tag children =>
    ⟨tag, parent, siblingNumbers (next + 1) children⟩ :: layoutAll (some next) (next + 1) children

def layoutAll (parent : Option Nat) (next : Nat) : List Element → List Node
  | [] => []
  | e :: rest => layout parent next e ++ layoutAll parent (next + e.size) rest
end

def ofElement (schema : Schema) (e : Element) : ElementTree := ⟨schema, (layout none 0 e).toArray⟩

/-! ### Unchecked writes -/

/-- A tree of nothing but a root. -/
def withRoot (schema : Schema) (kind : String) : ElementTree := ⟨schema, #[⟨⟨kind, .empty⟩, none, []⟩]⟩

/-- Appends an element below another; its number is the size before. -/
def push (t : ElementTree) (parent : Nat) (kind : String) : ElementTree :=
  let nodes := t.nodes.push ⟨⟨kind, .empty⟩, some parent, []⟩
  { t with nodes := nodes.modify parent fun node => { node with children := node.children ++ [t.size] } }

def insertAttribute (t : ElementTree) (id : Nat) (name : String) (value : AttributeValue) :
    ElementTree :=
  { t with nodes := t.nodes.modify id fun node =>
    { node with tag.attributes := node.tag.attributes.insert name value } }

/-! ### Checks -/

def checkChild (schema : Schema) (parent kind : String) : Except SchemaViolation Unit :=
  if !schema.hasElement kind then .error (.unknownElement kind)
  else if !schema.allowsChild parent kind then .error (.notAllowedChild parent kind)
  else .ok ()

def checkAttribute (schema : Schema) (kind name : String) (value : AttributeValue) :
    Except SchemaViolation Unit :=
  match schema.attributeType? kind name with
  | none => .error (.notAllowedAttribute kind name)
  | some expected =>
    if value.type = expected then .ok () else .error (.attributeType kind name expected)

end ElementTree

/-! ### Checked writes -/

/-- Writes to a tree, up to the first that is refused. What was written before it stays written. -/
abbrev Writing := ExceptT SchemaViolation (StateM ElementTree)

namespace Writing

/-- Appends an element below another, and gives its number. -/
def add (parent : Nat) (kind : String) : Writing Nat := do
  let t : ElementTree ← get
  MonadExcept.ofExcept (ElementTree.checkChild t.schema (t.tag parent).kind kind)
  set (t.push parent kind)
  return t.size

def setAttribute (id : Nat) (name : String) (value : AttributeValue) : Writing Unit := do
  let t : ElementTree ← get
  MonadExcept.ofExcept (ElementTree.checkAttribute t.schema (t.tag id).kind name value)
  set (t.insertAttribute id name value)

/-- Sets an attribute from its text, read in the type that the schema declares. -/
def setAttributeText (id : Nat) (name raw : String) : Writing Unit := do
  let t : ElementTree ← get
  let kind := (t.tag id).kind
  match t.schema.attributeType? kind name with
  | none => throw (.notAllowedAttribute kind name)
  | some expected =>
    match AttributeValue.read? expected raw with
    | none => throw (.attributeType kind name expected)
    | some value => setAttribute id name value

/-- Sets the attributes of a tag one by one, in the order listed. -/
def copyAttributes (id : Nat) (tag : Tag) : Writing Unit :=
  tag.attributes.listed.forM fun entry => setAttribute id entry.1 entry.2

/-- Copies the elements on a stack, each below the element of the number beside it. A copied element is
replaced by those below it, the first of them on top. -/
def copyPending (source : ElementTree) : List (Rose Nat × Nat) → Writing Unit
  | [] => pure ()
  | (copied, parent) :: pending => do
    let tag := source.tag copied.value
    let id ← add parent tag.kind
    copyAttributes id tag
    copyPending source (copied.children.map (·, id) ++ pending)
termination_by pending => Rose.sizeAll (pending.map Prod.fst)
decreasing_by
  simp only [List.map_append, List.map_map, Function.comp_def, List.map_id', Rose.sizeAll_append,
    List.map_cons, Rose.sizeAll, Rose.size_eq]
  omega

end Writing

namespace ElementTree

/-- The tree after writes none of which is refused. -/
def written {α : Type} (t : ElementTree) (writes : Writing α) : Except SchemaViolation ElementTree :=
  match writes.run.run t with
  | (.ok _, u) => .ok u
  | (.error violation, _) => .error violation

def new (schema : Schema) (kind : String) : Except SchemaViolation ElementTree :=
  if schema.hasElement kind then .ok (withRoot schema kind) else .error (.unknownElement kind)

def add (t : ElementTree) (parent : Fin t.size) (kind : String) :
    Except SchemaViolation ElementTree :=
  t.written (Writing.add parent kind)

def setAttribute (t : ElementTree) (id : Fin t.size) (name : String) (value : AttributeValue) :
    Except SchemaViolation ElementTree :=
  t.written (Writing.setAttribute id name value)

def setAttributeText (t : ElementTree) (id : Fin t.size) (name raw : String) :
    Except SchemaViolation ElementTree :=
  t.written (Writing.setAttributeText id name raw)

/-- A tree of its own for an element and all below it, made by checked writes. -/
def deepCopy (t : ElementTree) (id : Fin t.size) : Except SchemaViolation ElementTree := do
  let copy ← new t.schema (t.tag id).kind
  copy.written do
    Writing.copyAttributes 0 (t.tag id)
    Writing.copyPending t ((t.numbers id).children.map (·, 0))

/-! ### Elements that checked writes can build -/

/-- Whether the attributes of an element could be written one by one, in the order listed. -/
def checkTag (schema : Schema) (tag : Tag) : Except SchemaViolation Unit :=
  (Attributes.listed tag.attributes).forM fun entry =>
    checkAttribute schema tag.kind entry.1 entry.2

mutual
/-- Whether elements could be written below another one by one, in pre-order. -/
def checkBelow (schema : Schema) (parent : String) : Element → Except SchemaViolation Unit
  | .node tag children => do
    checkChild schema parent tag.kind
    checkTag schema tag
    checkAllBelow schema tag.kind children

def checkAllBelow (schema : Schema) (parent : String) : List Element → Except SchemaViolation Unit
  | [] => .ok ()
  | e :: rest => do
    checkBelow schema parent e
    checkAllBelow schema parent rest
end

/-- A tree for an element and all below it, if checked writes could build it. -/
def ofElement? (schema : Schema) (e : Element) : Except SchemaViolation ElementTree := do
  if !schema.hasElement e.kind then throw (.unknownElement e.kind)
  checkTag schema e.value
  checkAllBelow schema e.kind e.children
  return ofElement schema e

/-! ### Comparison -/

def Node.agrees (a b : Node) : Bool :=
  a.tag.kind == b.tag.kind && a.parent == b.parent && a.children == b.children
    && Attributes.agrees a.tag.attributes b.tag.attributes

/-- Whether two trees of one schema have the same nodes in the same order, floats compared as
floats. -/
def agrees (t u : ElementTree) : Bool :=
  t.schema.kind == u.schema.kind && t.size == u.size
    && (t.nodes.toList.zip u.nodes.toList).all fun pair => Node.agrees pair.1 pair.2

end ElementTree

end Articulation
