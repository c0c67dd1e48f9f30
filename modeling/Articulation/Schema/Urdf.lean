import Articulation.Schema.Basic
/-! The table of URDF, a flat list of links and of the joints between them. -/
namespace Articulation.Schema

def urdf : Schema where
  kind := .urdf
  rules := [
    element "robot" ["link", "joint", "material", "transmission", "gazebo"]
      (typed .string ["name", "version"]),
    element "link" ["inertial", "visual", "collision"] (typed .string ["name", "type"]),
    element "inertial" ["origin", "mass", "inertia"] [],
    element "origin" [] (typed .floatArray ["xyz", "rpy"]),
    element "mass" [] (typed .float ["value"]),
    element "inertia" [] (typed .float ["ixx", "ixy", "ixz", "iyy", "iyz", "izz"]),
    element "visual" ["origin", "geometry", "material"] (typed .string ["name"]),
    element "collision" ["origin", "geometry"] (typed .string ["name"]),
    element "geometry" ["box", "sphere", "cylinder", "capsule", "mesh"] [],
    element "box" [] (typed .floatArray ["size"]),
    element "sphere" [] (typed .float ["radius"]),
    element "cylinder" [] (typed .float ["radius", "length"]),
    element "capsule" [] (typed .float ["radius", "length"]),
    element "mesh" []
      (typed .string ["filename"] ++
       typed .floatArray ["scale"]),
    element "material" ["color", "texture"] (typed .string ["name"]),
    element "color" [] (typed .floatArray ["rgba"]),
    element "texture" [] (typed .string ["filename"]),
    element "joint" ["origin", "parent", "child", "axis", "calibration", "dynamics", "limit", "mimic",
      "safety_controller", "hardwareInterface"] (typed .string ["name", "type"]),
    element "parent" [] (typed .string ["link"]),
    element "child" [] (typed .string ["link"]),
    element "axis" [] (typed .floatArray ["xyz"]),
    element "calibration" [] (typed .float ["rising", "falling"]),
    element "dynamics" [] (typed .float ["damping", "friction"]),
    element "limit" [] (typed .float ["lower", "upper", "effort", "velocity"]),
    element "mimic" []
      (typed .string ["joint"] ++
       typed .float ["multiplier", "offset"]),
    element "safety_controller" []
      (typed .float ["soft_lower_limit", "soft_upper_limit", "k_position", "k_velocity"]),
    element "transmission" ["type", "joint", "actuator"] (typed .string ["name"]),
    element "type" [] [],
    element "actuator" ["mechanicalReduction", "hardwareInterface"] (typed .string ["name"]),
    element "mechanicalReduction" [] [],
    element "hardwareInterface" [] [],
    element "gazebo" [] (typed .string ["reference"])]

end Articulation.Schema
