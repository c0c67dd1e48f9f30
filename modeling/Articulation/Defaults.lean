import Articulation.Element.Basic
/-! Default values that cascade to elements: one table for each class, from the default blocks nested
in the topmost ones, and one for elements without a value of their class, from the topmost blocks
themselves. What is read later replaces what was read before. -/
namespace Articulation

abbrev DefaultTable := NameMap Values

structure Defaults where
  byClass : NameMap DefaultTable
  unclassed : DefaultTable
deriving DecidableEq, Repr

namespace Defaults

def empty : Defaults := ⟨.empty, .empty⟩

/-- Whether an attribute may be given by a default. -/
def cascades (name : String) : Bool := name != "name" && name != "class"

/-- Values with those of an element written over them. -/
def merge (values : Values) (e : Element) : Values :=
  e.attributes.listed.foldl
    (fun values entry => if cascades entry.1 then values.insert entry.1 entry.2 else values) values

def addValues (table : DefaultTable) (children : List Element) : DefaultTable :=
  children.foldl
    (fun table child =>
      if child.kind = "default" then table
      else table.modify child.kind .empty fun values => merge values child) table

mutual
/-- Adds a block nested in another and the blocks below it. A block without a class gives no values,
but those below it do. -/
def addBlock (d : Defaults) : Element → Defaults
  | .node tag children =>
    let d := match (Attributes.lookup tag.attributes).string? "class" with
      | some name =>
        { d with byClass := d.byClass.modify name .empty fun table => addValues table children }
      | none => d
    addBlocks d children

def addBlocks (d : Defaults) : List Element → Defaults
  | [] => d
  | e :: rest => addBlocks (if e.kind = "default" then addBlock d e else d) rest
end

def ofDocument (root : Element) : Defaults :=
  let blocks := root.childrenOf "default"
  let classed := blocks.foldl (fun d block => addBlocks d block.children) empty
  { classed with unclassed := blocks.foldl (fun t block => addValues t block.children) .empty }

def isEmpty (d : Defaults) : Bool := d.byClass.isEmpty && d.unclassed.isEmpty

def hasClass (d : Defaults) (name : String) : Bool := d.byClass.contains name

def classes (d : Defaults) : List String := d.byClass.names

/-- The value that a class gives to elements of one type. -/
def classValue? (d : Defaults) (className kind name : String) : Option AttributeValue :=
  ((d.byClass.find? className).bind (·.find? kind)).bind (·.find? name)

/-- The value given to elements of one type whose class gives none. -/
def unclassedValue? (d : Defaults) (kind name : String) : Option AttributeValue :=
  (d.unclassed.find? kind).bind (·.find? name)

end Defaults

/-- An element with the default values that apply to it. -/
structure Scope where
  defaults : Defaults
  element : Element
  className : Option String

namespace Scope

/-- An element whose class, unless it names one itself, is inherited. -/
def of (defaults : Defaults) (inherited : Option String) (element : Element) : Scope :=
  ⟨defaults, element, (element.own.string? "class").or inherited⟩

/-- The element's own value, else that of its class, else that of its type alone. -/
def lookup (s : Scope) : Lookup := fun name =>
  (s.element.own name).or
    ((s.className.bind fun className => s.defaults.classValue? className s.element.kind name).or
      (s.defaults.unclassedValue? s.element.kind name))

end Scope

end Articulation
