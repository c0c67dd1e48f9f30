import Articulation.Number.Layout
import Articulation.Robot
/-! What is printed about a model: its bodies with their joints, its meshes and actuators, or its
diagnostics. -/
namespace Articulation

def Vec3.fixedText (v : Vec3) : String :=
  let places := Number.fixed 3
  s!"({places v.x}, {places v.y}, {places v.z})"

def Vec3.scaleText (v : Vec3) : String :=
  s!"[{Number.pointed v.x}, {Number.pointed v.y}, {Number.pointed v.z}]"

mutual
/-- One line for a body, one for each of its joints, and then the lines of the bodies below it, each
level indented further. -/
def Body.outline (indent : String) : Body → List String
  | .node link children =>
    let head := s!"{indent}{link.name} @ {link.pose.position.fixedText}: "
      ++ s!"{link.colliders.length} colliders, {link.drawables.length} drawables"
    let joints := link.joints.map fun joint => s!"{indent}  ~ {joint.name} ({joint.type.name})"
    head :: joints ++ Body.outlineAll (indent ++ "  ") children

def Body.outlineAll (indent : String) : List Body → List String
  | [] => []
  | body :: bodies => body.outline indent ++ Body.outlineAll indent bodies
end

/-- Lines under a title with a line left free before it; without lines nothing. -/
def titled (title : String) (rows : List String) : List String :=
  if rows.isEmpty then [] else "" :: title :: rows

namespace Robot

def headline (r : Robot) : String :=
  s!"{r.name}: {r.linkage.size} bodies, {r.linkage.joints.length} joints, {r.dof} dof, "
    ++ s!"{r.actuators.length} actuators"

def meshRow (mesh : Mesh) : String :=
  s!"  {mesh.id} -> {mesh.file} (scale {mesh.scale.scaleText})"

def actuatorRow (actuator : Actuator) : String :=
  s!"  {actuator.name} [{actuator.kind.name}] -> " ++ actuator.joint.getD "<none>"

def inspection (r : Robot) : List String :=
  r.headline :: r.linkage.root.outline ""
    ++ titled "meshes:" (r.meshes.map meshRow)
    ++ titled "actuators:" (r.actuators.map actuatorRow)

/-- The lines of a check: one for each diagnostic, or one that all is well. -/
def findings (r : Robot) : List String :=
  if r.diagnostics.isEmpty then [s!"{r.name}: ok"]
  else r.diagnostics.map fun d => s!"{r.name}: {d.text}"

end Robot

end Articulation
