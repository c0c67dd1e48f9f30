import Articulation.Settings.Basic
import Articulation.Storage
import Articulation.Toml.Reader
/-! Settings from TOML. Whatever is left out has its standard value, and unknown names are passed over.
A group of settings may also be written as an array of its values in order. -/
namespace Articulation

inductive SettingsError where
  | file (cause : FileFault)
  /-- The text is no TOML, or a value has the wrong type. -/
  | format
  | axis (cause : AxisFault)
deriving DecidableEq, Repr

namespace SettingsError

/-- The wording of an error; a text that breaks the rules of its format has none of its own. -/
def message? : SettingsError → Option String
  | file cause => some s!"IO error: {cause.message}"
  | format => none
  | axis cause => some s!"Invalid value for mjcf.joint_axis: {cause.message}"

end SettingsError

namespace Settings

abbrev Group := String → Option Toml

/-- The values of a group whose names, in order, are given. A date counts as an empty group. -/
def group? (names : List String) : Toml → Option Group
  | .table entries => some fun name => entries.lookup name
  | .array items => some fun name => (names.zip items).lookup name
  | .datetime => some fun _ => none
  | _ => none

/-- A value that has a standard where it is left out. -/
def Group.get? {α : Type} (group : Group) (name : String) (read : Toml → Option α) (standard : α) :
    Option α :=
  match group name with
  | none => some standard
  | some value => read value

def boolean? : Toml → Option Bool
  | .boolean value => some value
  | _ => none

def string? : Toml → Option String
  | .string text => some text
  | _ => none

def binary32? : Toml → Option Float32
  | .integer value => some (Float32.ofInt value)
  | .float value => some value.toFloat32
  | _ => none

def isEmptyContainer : Toml → Bool
  | .table entries => entries.isEmpty
  | .array items => items.isEmpty
  | _ => false

/-- A keyword: a string, or a table with the keyword as its only name and nothing under it. -/
def keyword? {α : Type} (ofKeyword? : String → Option α) : Toml → Option α
  | .string text => ofKeyword? text
  | .table [(name, value)] => if isEmptyContainer value then ofKeyword? name else none
  | _ => none

/-- A vector: the first three items of an array. -/
def vec3? : Toml → Option Vec3
  | .array (x :: y :: z :: _) => do return ⟨← binary32? x, ← binary32? y, ← binary32? z⟩
  | _ => none

def mjcf? (value : Toml) : Option MjcfSettings := do
  let g ← group? ["angle", "coordinate", "joint_axis", "meshdir"] value
  let standard := MjcfSettings.standard
  return {
    angle := ← g.get? "angle" (keyword? AngleUnit.ofKeyword?) standard.angle
    coordinate := ← g.get? "coordinate" (keyword? CoordinateMode.ofKeyword?) standard.coordinate
    jointAxis := ← g.get? "joint_axis" vec3? standard.jointAxis
    meshDirectory := ← g.get? "meshdir" (Option.map some ∘ string?) standard.meshDirectory }

def urdf? (value : Toml) : Option UrdfSettings := do
  let g ← group? ["default_actuators"] value
  return ⟨← g.get? "default_actuators" boolean? true⟩

def rlsim? (value : Toml) : Option RlsimSettings := do
  let g ← group? ["default_actuators", "world_up"] value
  let defaultActuators ← g.get? "default_actuators" boolean? true
  let worldUp ← g.get? "world_up" (Option.map some ∘ keyword? UpAxis.ofKeyword?) none
  return ⟨defaultActuators, worldUp⟩

def assets? (value : Toml) : Option AssetSettings := do
  let g ← group? ["resolve_paths"] value
  return ⟨← g.get? "resolve_paths" boolean? true⟩

def ofToml? (value : Toml) : Option Settings := do
  let g ← group? ["mjcf", "urdf", "rlsim", "assets"] value
  let standard := Settings.standard
  return {
    mjcf := ← g.get? "mjcf" mjcf? standard.mjcf
    urdf := ← g.get? "urdf" urdf? standard.urdf
    rlsim := ← g.get? "rlsim" rlsim? standard.rlsim
    assets := ← g.get? "assets" assets? standard.assets }

def read (text : String) : Except SettingsError Settings := do
  match (Toml.read? text).bind ofToml? with
  | none => throw .format
  | some settings =>
    settings.validate.mapError .axis
    return settings

end Settings

end Articulation
