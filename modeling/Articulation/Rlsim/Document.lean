import Articulation.Asset.Basic
import Articulation.Json.Reader
/-! Documents of rlsim: joints that name their parent by its index, a body for each of the first joints,
and shapes to draw. Members with unknown names are passed over; a member that is known may not come
twice. The document and its skeleton may also be written as arrays of their members in order. -/
namespace Articulation.Rlsim

structure Attachment where
  position : Vec3
  angles : Vec3
deriving DecidableEq, Repr

structure JointDefinition where
  name : String
  type : String
  parent : Int
  torqueLimit : Float32
  lower : Float32
  upper : Float32
  frame : Attachment
deriving DecidableEq, Repr

structure BodyDefinition where
  name : String
  shape : String
  mass : Float32
  parameters : Vec3
  frame : Attachment
deriving DecidableEq, Repr

structure DrawableDefinition where
  name : String
  shape : String
  joint : Int
  parameters : Vec3
  frame : Attachment
  color : Rgba
deriving DecidableEq, Repr

structure Document where
  joints : List JointDefinition
  bodies : List BodyDefinition
  drawables : List DrawableDefinition
  worldUp : Option String
deriving DecidableEq, Repr

abbrev Members := List (Option String × Json)

namespace Members

def values (members : Members) (name : String) : List Json :=
  (members.filter fun member => member.1 == some name).map (·.2)

def required? {α : Type} (members : Members) (name : String) (read : Json → Option α) : Option α :=
  match members.values name with
  | [value] => read value
  | _ => none

/-- A member that has a value of its own where it is left out. -/
def optional? {α : Type} (members : Members) (name : String) (read : Json → Option α)
    (absent : α) : Option α :=
  match members.values name with
  | [] => some absent
  | [value] => read value
  | _ => none

def float? (members : Members) (name : String) (absent : Float32) : Option Float32 :=
  members.optional? name Json.binary32? absent

def string? (members : Members) (name absent : String) : Option String :=
  members.optional? name Json.text? absent

def integer? (members : Members) (name : String) (absent : Int) : Option Int :=
  members.optional? name Json.int64? absent

def vector? (members : Members) (x y z : String) (absent : Float32) : Option Vec3 := do
  return ⟨← members.float? x absent, ← members.float? y absent, ← members.float? z absent⟩

end Members

/-- The members of an object at some depth, if everything in it is sound. -/
def members? (depth : Nat) (value : Json) : Option Members :=
  match value with
  | .object members => if value.isSound depth then some members else none
  | _ => none

def attachment? (m : Members) : Option Attachment := do
  let position ← m.vector? "AttachX" "AttachY" "AttachZ" 0
  let angles ← m.vector? "AttachThetaX" "AttachThetaY" "AttachThetaZ" 0
  return ⟨position, angles⟩

def parameters? (m : Members) : Option Vec3 := m.vector? "Param0" "Param1" "Param2" 0.1

def color? (m : Members) : Option Rgba := do
  return ⟨← m.float? "ColorR" 0.3, ← m.float? "ColorG" 0.4, ← m.float? "ColorB" 0.5,
    ← m.float? "ColorA" 1⟩

def undefinedName : String := "undefined"

/-- The index that refers to no joint. -/
def noIndex : Int := -1

/-- A joint, three containers deep in its document. -/
def joint? (value : Json) : Option JointDefinition := do
  let m ← members? 3 value
  return {
    name := ← m.string? "Name" undefinedName
    type := ← m.string? "Type" "none"
    parent := ← m.integer? "Parent" noIndex
    torqueLimit := ← m.float? "TorqueLim" 0
    lower := ← m.float? "LimLow0" 0
    upper := ← m.float? "LimHigh0" 0
    frame := ← attachment? m }

def body? (value : Json) : Option BodyDefinition := do
  let m ← members? 2 value
  return {
    name := ← m.string? "Name" undefinedName
    shape := ← m.string? "Shape" "box"
    mass := ← m.float? "Mass" 1
    parameters := ← parameters? m
    frame := ← attachment? m }

def drawable? (value : Json) : Option DrawableDefinition := do
  let m ← members? 2 value
  return {
    name := ← m.string? "Name" undefinedName
    shape := ← m.string? "Shape" "box"
    joint := ← m.integer? "ParentJoint" noIndex
    parameters := ← parameters? m
    frame := ← attachment? m
    color := ← color? m }

def items? {α : Type} (read : Json → Option α) : Json → Option (List α)
  | .array items => items.mapM read
  | _ => none

def areNamed (members : Members) : Bool := members.all fun member => member.1.isSome

def skeleton? : Json → Option (List JointDefinition)
  | .object members =>
    if areNamed members then Members.required? members "Joints" (items? joint?) else none
  | .array [joints] => items? joint? joints
  | _ => none

def worldUp? : Json → Option (Option String)
  | .null => some none
  | value => value.text?.map some

namespace Document

def ofJson? : Json → Option Document
  | .object members => do
    if !areNamed members then none
    let joints ← Members.required? members "Skeleton" skeleton?
    let bodies ← Members.required? members "BodyDefs" (items? body?)
    let drawables ← Members.required? members "DrawShapeDefs" (items? drawable?)
    let worldUp ← Members.optional? members "WorldUp" worldUp? none
    return ⟨joints, bodies, drawables, worldUp⟩
  | .array (joints :: bodies :: drawables :: rest) => do
    let worldUp ← match rest with
      | [] => some none
      | [up] => worldUp? up
      | _ => none
    return ⟨← skeleton? joints, ← items? body? bodies, ← items? drawable? drawables, worldUp⟩
  | _ => none

def read? (text : String) : Option Document := (Json.read? text).bind ofJson?

end Document

end Articulation.Rlsim
