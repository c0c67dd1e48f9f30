import Articulation.Json.Token
/-! The value that the tokens of a JSON text form. Open containers are held on a stack, so a value may
nest to any depth. -/
namespace Articulation.Json

/-- An open container with what it holds so far, backwards. -/
inductive Frame where
  | array (items : List Json)
  /-- An object in which the value of a name is to come. -/
  | member (members : List (Option String × Json)) (name : Option String)
  | object (members : List (Option String × Json))

inductive Expected where
  | value
  /-- A value or the end of an array just opened. -/
  | valueOrEnd
  | name
  /-- A name or the end of an object just opened. -/
  | nameOrEnd
  | colon
  | commaOrEnd
deriving DecidableEq, Repr

structure Progress where
  frames : List Frame
  expected : Expected
  /-- The outermost value once it is complete. -/
  result : Option Json

namespace Progress

def start : Progress := ⟨[], .value, none⟩

def place (value : Json) : List Frame → Option Progress
  | [] => some ⟨[], .commaOrEnd, some value⟩
  | .array items :: frames => some ⟨.array (value :: items) :: frames, .commaOrEnd, none⟩
  | .member members name :: frames =>
    some ⟨.object ((name, value) :: members) :: frames, .commaOrEnd, none⟩
  | .object _ :: _ => none

def beginValue (frames : List Frame) : Token → Option Progress
  | .null => place .null frames
  | .bool value => place (.bool value) frames
  | .number literal => place (.number literal) frames
  | .string text => place (.string text) frames
  | .openArray => some ⟨.array [] :: frames, .valueOrEnd, none⟩
  | .openObject => some ⟨.object [] :: frames, .nameOrEnd, none⟩
  | .closeArray | .closeObject | .comma | .colon => none

def close : Token → List Frame → Option Progress
  | .closeArray, .array items :: frames => place (.array items.reverse) frames
  | .closeObject, .object members :: frames => place (.object members.reverse) frames
  | _, _ => none

def step (p : Progress) (token : Token) : Option Progress :=
  match p.expected, token, p.frames with
  | .value, token, frames => beginValue frames token
  | .valueOrEnd, .closeArray, frames => close .closeArray frames
  | .valueOrEnd, token, frames => beginValue frames token
  | .name, .string name, .object members :: frames =>
    some ⟨.member members name :: frames, .colon, none⟩
  | .nameOrEnd, .string name, .object members :: frames =>
    some ⟨.member members name :: frames, .colon, none⟩
  | .nameOrEnd, .closeObject, frames => close .closeObject frames
  | .colon, .colon, frames => some ⟨frames, .value, none⟩
  | .commaOrEnd, .comma, .array items :: frames => some ⟨.array items :: frames, .value, none⟩
  | .commaOrEnd, .comma, .object members :: frames => some ⟨.object members :: frames, .name, none⟩
  | .commaOrEnd, token, frames => close token frames
  | _, _, _ => none

end Progress

def read? (text : String) : Option Json := do
  let progress ← (← tokens? text).foldlM Progress.step .start
  if progress.frames.isEmpty then progress.result else none

end Articulation.Json
