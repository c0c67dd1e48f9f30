import Articulation.Attribute.Basic
import Articulation.NameMap
/-! Schemas: which children and which attributes an element type may have. -/
namespace Articulation

inductive SchemaKind where
  | mjcf
  | urdf
deriving DecidableEq, Repr

namespace SchemaKind

def name : SchemaKind → String
  | mjcf => "MJCF"
  | urdf => "URDF"

/-- The type of the document element. -/
def rootElement : SchemaKind → String
  | mjcf => "mujoco"
  | urdf => "robot"

end SchemaKind

structure Rule where
  children : List String
  attributes : List (String × AttributeType)
deriving DecidableEq, Repr

structure Schema where
  kind : SchemaKind
  rules : List (String × Rule)
deriving DecidableEq, Repr

namespace Schema

def typed (type : AttributeType) (names : List String) : List (String × AttributeType) :=
  names.map fun name => (name, type)

def element (name : String) (children : List String) (attributes : List (String × AttributeType)) :
    String × Rule :=
  (name, ⟨children, attributes⟩)

def rule? (s : Schema) (element : String) : Option Rule := s.rules.lookup element

def hasElement (s : Schema) (element : String) : Bool := (s.rule? element).isSome

def attributeType? (s : Schema) (element name : String) : Option AttributeType :=
  (s.rule? element).bind fun rule => rule.attributes.lookup name

/-- Whether `child` may stand directly inside `parent`. -/
def allowsChild (s : Schema) (parent child : String) : Bool :=
  match s.rule? parent with
  | some rule => rule.children.contains child
  | none => false

def elementNames (s : Schema) : List String := sortedNames (s.rules.map (·.1))

namespace Rule

def sortedAttributes (rule : Rule) : List (String × AttributeType) :=
  rule.attributes.mergeSort fun a b => a.1 ≤ b.1

end Rule

/-- The whole table: under each element type its attributes and then its children, by name. -/
def text (s : Schema) : String :=
  let row (name : String) (rule : Rule) : List String :=
    s!"  {name}" :: (Rule.sortedAttributes rule).map (fun a => s!"    @{a.1}: {a.2.name}")
      ++ (sortedNames rule.children).map (fun child => s!"    <{child}>")
  let rows := s.elementNames.flatMap fun name => ((s.rule? name).map (row name)).getD []
  String.join ((s!"schema {s.kind.name}" :: rows).map (· ++ "\n"))

end Schema

end Articulation
