import Articulation.Pose.Vector
/-! What a compilation may assume beside the document: units and axes that the document leaves open,
and which things are made by default. -/
namespace Articulation

inductive AngleUnit where
  | degree
  | radian
deriving DecidableEq, Repr

namespace AngleUnit

def ofKeyword? : String → Option AngleUnit
  | "degree" => some degree
  | "radian" => some radian
  | _ => none

def keyword : AngleUnit → String
  | degree => "degree"
  | radian => "radian"

def toRadians : AngleUnit → Float32 → Float32
  | degree, value => value * (pi / 180)
  | radian, value => value

end AngleUnit

/-- Whether poses in a document are relative to the parent body or to the world. -/
inductive CoordinateMode where
  | relative
  | world
deriving DecidableEq, Repr

namespace CoordinateMode

def ofKeyword? : String → Option CoordinateMode
  | "local" => some relative
  | "global" => some world
  | _ => none

def keyword : CoordinateMode → String
  | relative => "local"
  | world => "global"

end CoordinateMode

inductive UpAxis where
  | x
  | y
  | z
deriving DecidableEq, Repr

namespace UpAxis

def ofKeyword? : String → Option UpAxis
  | "x" => some x
  | "y" => some y
  | "z" => some z
  | _ => none

def keyword : UpAxis → String
  | x => "x"
  | y => "y"
  | z => "z"

def toZUp : UpAxis → Vec3 → Vec3
  | x, v => ⟨v.y, v.z, v.x⟩
  | y, v => ⟨v.z, v.x, v.y⟩
  | z, v => v

end UpAxis

structure MjcfSettings where
  angle : AngleUnit
  coordinate : CoordinateMode
  jointAxis : Vec3
  meshDirectory : Option String
deriving DecidableEq, Repr

structure UrdfSettings where
  defaultActuators : Bool
deriving DecidableEq, Repr

structure RlsimSettings where
  defaultActuators : Bool
  worldUp : Option UpAxis
deriving DecidableEq, Repr

structure AssetSettings where
  resolvePaths : Bool
deriving DecidableEq, Repr

structure Settings where
  mjcf : MjcfSettings
  urdf : UrdfSettings
  rlsim : RlsimSettings
  assets : AssetSettings
deriving DecidableEq, Repr

inductive AxisFault where
  | notFinite
  | zero
deriving DecidableEq, Repr

def AxisFault.message : AxisFault → String
  | notFinite => "components must be finite"
  | zero => "axis must be non-zero"

namespace MjcfSettings

def standard : MjcfSettings := ⟨.degree, .relative, .unitZ, none⟩

def axisFault? (s : MjcfSettings) : Option AxisFault :=
  let components := s.jointAxis.toList
  if !components.all Float32.isFinite then some .notFinite
  else if components.all fun c => c.abs < epsilon then some .zero
  else none

end MjcfSettings

namespace Settings

def standard : Settings := ⟨.standard, ⟨true⟩, ⟨true, none⟩, ⟨true⟩⟩

def validate (s : Settings) : Except AxisFault Unit :=
  match s.mjcf.axisFault? with
  | some fault => .error fault
  | none => .ok ()

end Settings

end Articulation
