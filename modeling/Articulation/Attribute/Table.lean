import Articulation.Attribute.Basic
import Articulation.NameMap
/-! The attributes of one element, in one map for each value type. A write looks at the map of its own
type alone; a name is looked up in one map after another. -/
namespace Articulation

/-- One value for each name, whatever the types. -/
abbrev Values := NameMap AttributeValue

/-- The value types, in the order in which their maps are listed. -/
def AttributeType.all : List AttributeType := [int, float, intArray, floatArray, string]

structure Attributes where
  ints : NameMap Int64
  floats : NameMap Float32
  intArrays : NameMap (List Int64)
  floatArrays : NameMap (List Float32)
  strings : NameMap String
deriving DecidableEq, Repr

namespace Attributes

def empty : Attributes := ⟨.empty, .empty, .empty, .empty, .empty⟩

instance : Inhabited Attributes := ⟨empty⟩

def insert (a : Attributes) (name : String) : AttributeValue → Attributes
  | .int value => { a with ints := a.ints.insert name value }
  | .float value => { a with floats := a.floats.insert name value }
  | .intArray values => { a with intArrays := a.intArrays.insert name values }
  | .floatArray values => { a with floatArrays := a.floatArrays.insert name values }
  | .string value => { a with strings := a.strings.insert name value }

def find? (a : Attributes) (name : String) : Option AttributeValue :=
  ((a.ints.find? name).map .int).or
    (((a.floats.find? name).map .float).or
      (((a.intArrays.find? name).map .intArray).or
        (((a.floatArrays.find? name).map .floatArray).or
          ((a.strings.find? name).map .string))))

def contains (a : Attributes) (name : String) : Bool := (a.find? name).isSome

def size (a : Attributes) : Nat :=
  a.ints.size + a.floats.size + a.intArrays.size + a.floatArrays.size + a.strings.size

def isEmpty (a : Attributes) : Bool := a.size == 0

/-- The entries of the map for one value type, by name. -/
def ofType (a : Attributes) : AttributeType → List (String × AttributeValue)
  | .int => a.ints.entries.map fun entry => (entry.1, .int entry.2)
  | .float => a.floats.entries.map fun entry => (entry.1, .float entry.2)
  | .intArray => a.intArrays.entries.map fun entry => (entry.1, .intArray entry.2)
  | .floatArray => a.floatArrays.entries.map fun entry => (entry.1, .floatArray entry.2)
  | .string => a.strings.entries.map fun entry => (entry.1, .string entry.2)

/-- Every attribute, by value type and then by name. -/
def listed (a : Attributes) : List (String × AttributeValue) := AttributeType.all.flatMap a.ofType

def ofList (entries : List (String × AttributeValue)) : Attributes :=
  entries.foldl (fun a entry => a.insert entry.1 entry.2) empty

def lookup (a : Attributes) : Lookup := a.find?

def agrees (a b : Attributes) : Bool :=
  a.listed.map (·.1) == b.listed.map (·.1) && (a.listed.zip b.listed).all fun p => p.1.2.agrees p.2.2

end Attributes

end Articulation
