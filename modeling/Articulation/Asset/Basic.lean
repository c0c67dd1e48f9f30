import Articulation.Pose.Vector
/-! What a model keeps once and refers to by name: mesh files, surface materials and elevation
grids. -/
namespace Articulation

structure Rgba where
  r : Float32
  g : Float32
  b : Float32
  a : Float32
deriving DecidableEq, Repr, Inhabited

namespace Rgba

/-- The color of a drawable that nothing else colors. -/
def standard : Rgba := ⟨0.7, 0.5, 0.3, 1⟩

def ofList? : List Float32 → Option Rgba
  | [r, g, b, a] => some ⟨r, g, b, a⟩
  | _ => none

def toList (c : Rgba) : List Float32 := [c.r, c.g, c.b, c.a]

end Rgba

def standardSpecular : Vec3 := ⟨0.7, 0.5, 0.3⟩

def standardShininess : Float32 := 32

structure Mesh where
  id : String
  file : String
  scale : Vec3
deriving DecidableEq, Repr

/-- A reference that names its file directly, at unit scale. -/
def Mesh.literal (file : String) : Mesh := ⟨file, file, .splat 1⟩

structure Material where
  name : String
  diffuse : Rgba
  specular : Vec3
  shininess : Float32
deriving DecidableEq, Repr

def Material.ofColor (name : String) (diffuse : Rgba) : Material :=
  ⟨name, diffuse, standardSpecular, standardShininess⟩

/-- Half-extents of an elevation grid, its elevation and the depth of its base. -/
structure GridExtent where
  radiusX : Float32
  radiusY : Float32
  elevation : Float32
  base : Float32
deriving DecidableEq, Repr

def GridExtent.ofList? : List Float32 → Option GridExtent
  | [radiusX, radiusY, elevation, base] => some ⟨radiusX, radiusY, elevation, base⟩
  | _ => none

def GridExtent.toList (e : GridExtent) : List Float32 := [e.radiusX, e.radiusY, e.elevation, e.base]

structure Heightfield where
  id : String
  file : Option String
  rows : Nat
  columns : Nat
  extent : GridExtent
deriving DecidableEq, Repr

end Articulation
