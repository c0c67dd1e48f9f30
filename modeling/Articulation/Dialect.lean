/-! The formats that describe a robot. -/
namespace Articulation

inductive Dialect where
  | mjcf
  | urdf
  | rlsim
deriving DecidableEq, Repr

structure UnknownDialect where
  word : String
deriving DecidableEq, Repr

def UnknownDialect.message (e : UnknownDialect) : String :=
  s!"unknown dialect '{e.word}' (expected mjcf, urdf or rlsim)"

namespace Dialect

def name : Dialect → String
  | mjcf => "mjcf"
  | urdf => "urdf"
  | rlsim => "rlsim"

/-- The dialect of a word in ASCII letters of either case. -/
def ofWord (word : String) : Except UnknownDialect Dialect :=
  match String.ofList (word.toList.map Char.toLower) with
  | "mjcf" | "mujoco" => .ok mjcf
  | "urdf" => .ok urdf
  | "rlsim" | "json" => .ok rlsim
  | lower => .error ⟨lower⟩

end Dialect

end Articulation
