import Articulation.Attribute.Table
import Articulation.Rose.Basic
/-! Elements of a document: a type and attributes, with elements below it in order. -/
namespace Articulation

/-- What an element holds apart from the elements below it. -/
structure Tag where
  kind : String
  attributes : Attributes
deriving DecidableEq, Repr

abbrev Element := Rose Tag

namespace Element

def kind (e : Element) : String := e.value.kind

def attributes (e : Element) : Attributes := e.value.attributes

def own (e : Element) : Lookup := e.attributes.lookup

def name? (e : Element) : Option String := e.own.string? "name"

def childrenOf (e : Element) (kind : String) : List Element :=
  e.children.filter fun child => child.kind == kind

def child? (e : Element) (kind : String) : Option Element :=
  e.children.find? fun child => child.kind == kind

def descendants (e : Element) : List Element := Rose.walk e.children

/-- All names that elements below the element declare. -/
def declaredNames (e : Element) : List String := e.descendants.filterMap name?

theorem child?_eq_some {e child : Element} {kind : String} (found : e.child? kind = some child) :
    child ∈ e.children ∧ child.kind = kind :=
  ⟨List.mem_of_find?_eq_some found, by simpa using List.find?_some found⟩

theorem subtrees_eq_cons (e : Element) : e.subtrees = e :: e.descendants := by
  rw [Rose.subtrees_eq, descendants, Rose.walk_eq_subtreesAll]

theorem descendants_eq (e : Element) :
    e.descendants = e.children.flatMap fun child => child :: descendants child := by
  rw [descendants, Rose.walk_eq_subtreesAll, Rose.subtreesAll_eq]
  exact congrArg (List.flatMap · e.children) (funext subtrees_eq_cons)

end Element

end Articulation
