import Articulation.Number.Layout
import Articulation.Number.Reading
import Articulation.Pose.Vector
import Articulation.Text.Blank
/-! Typed attribute values: their reading from text, their text, and views of arrays as vectors. Text
is read without the blanks around it, and the items of an array are its words. -/
namespace Articulation

inductive AttributeType where
  | int
  | float
  | intArray
  | floatArray
  | string
deriving DecidableEq, Repr

def AttributeType.name : AttributeType → String
  | int => "int"
  | float => "float"
  | intArray => "array_int"
  | floatArray => "array_float"
  | string => "string"

inductive AttributeValue where
  | int (value : Int64)
  | float (value : Float32)
  | intArray (values : List Int64)
  | floatArray (values : List Float32)
  | string (value : String)
deriving DecidableEq, Repr

def Number.ofInt64 (n : Int64) : Float32 := Float32.ofInt n.toInt

def Number.integerDigits (n : Int) : List Char :=
  if n < 0 then '-' :: Nat.toDigits 10 n.natAbs else Nat.toDigits 10 n.natAbs

namespace AttributeValue

def type : AttributeValue → AttributeType
  | int _ => .int
  | float _ => .float
  | intArray _ => .intArray
  | floatArray _ => .floatArray
  | string _ => .string

/-- Reads a text as a value of the given type. An array may be empty; one item that does not read
spoils the whole. -/
def read? (type : AttributeType) (raw : String) : Option AttributeValue :=
  let text := Text.trim raw.toList
  match type with
  | .int => (Number.int64? text).map int
  | .float => (Number.binary32? text).map float
  | .intArray => ((Text.words text).mapM Number.int64?).map intArray
  | .floatArray => ((Text.words text).mapM Number.binary32?).map floatArray
  | .string => some (string (String.ofList text))

def text : AttributeValue → String
  | int value => String.ofList (Number.integerDigits value.toInt)
  | float value => Number.plain value
  | intArray values => " ".intercalate (values.map fun v => String.ofList (Number.integerDigits v.toInt))
  | floatArray values => " ".intercalate (values.map Number.plain)
  | string value => value

def int? : AttributeValue → Option Int64
  | int value => some value
  | _ => none

def float? : AttributeValue → Option Float32
  | float value => some value
  | _ => none

def string? : AttributeValue → Option String
  | string value => some value
  | _ => none

def floatArray? : AttributeValue → Option (List Float32)
  | floatArray values => some values
  | _ => none

def intArray? : AttributeValue → Option (List Int64)
  | intArray values => some values
  | _ => none

/-- The items of an array of either type, as floats. -/
def components? : AttributeValue → Option (List Float32)
  | floatArray values => some values
  | intArray values => some (values.map Number.ofInt64)
  | _ => none

/-- Equality of values by the comparison of floats: not-a-number differs from itself, and the two
zeros are equal. -/
def agrees : AttributeValue → AttributeValue → Bool
  | int a, int b => a == b
  | float a, float b => Float32.beq a b
  | intArray a, intArray b => a == b
  | floatArray a, floatArray b => a.length == b.length && (a.zip b).all fun p => Float32.beq p.1 p.2
  | string a, string b => a == b
  | _, _ => false

end AttributeValue

/-- A way to look up attribute values by name, with getters that read a value in one type. A value of
another type, or an array of another length, counts as absent. -/
abbrev Lookup := String → Option AttributeValue

namespace Lookup

def has (l : Lookup) (name : String) : Bool := (l name).isSome

def int? (l : Lookup) (name : String) : Option Int64 := (l name).bind AttributeValue.int?

def float? (l : Lookup) (name : String) : Option Float32 := (l name).bind AttributeValue.float?

def string? (l : Lookup) (name : String) : Option String := (l name).bind AttributeValue.string?

def floatArray? (l : Lookup) (name : String) : Option (List Float32) :=
  (l name).bind AttributeValue.floatArray?

def intArray? (l : Lookup) (name : String) : Option (List Int64) :=
  (l name).bind AttributeValue.intArray?

/-- The items of an array that has exactly `length` of them. -/
def vector? (length : Nat) (l : Lookup) (name : String) : Option (List Float32) :=
  ((l name).bind AttributeValue.components?).filter (·.length == length)

def vec3? (l : Lookup) (name : String) : Option Vec3 :=
  ((l name).bind AttributeValue.components?).bind Vec3.ofList?

end Lookup

end Articulation
