import Articulation.Schema.Basic
/-! The table of MJCF, where bodies nest in the world body and values cascade from default blocks. -/
namespace Articulation.Schema

def named : List (String × AttributeType) :=
  typed .string ["name", "class"]

def posed : List (String × AttributeType) :=
  typed .floatArray ["pos", "quat", "euler", "axisangle", "xyaxes", "zaxis"]

def geomAttributes : List (String × AttributeType) :=
  typed .string ["type", "material", "mesh", "hfield"] ++
  typed .int ["contype", "conaffinity", "condim", "group", "priority"] ++
  typed .float ["mass", "density", "solmix", "margin", "gap", "fitscale"] ++
  typed .floatArray ["size", "fromto", "friction", "solref", "solimp", "rgba", "user"]

def jointAttributes : List (String × AttributeType) :=
  typed .string ["type", "limited"] ++
  typed .int ["group"] ++
  typed .float ["stiffness", "armature", "damping", "frictionloss", "ref", "springref", "margin"] ++
  typed .floatArray ["axis", "range", "solreflimit", "solimplimit", "user"]

def actuatorAttributes : List (String × AttributeType) :=
  typed .string ["joint", "ctrllimited", "forcelimited", "gaintype", "biastype", "dyntype",
                 "tendon", "site"] ++
  typed .int ["group"] ++
  typed .float ["kp", "kv"] ++
  typed .floatArray ["ctrlrange", "forcerange", "gear", "gainprm", "biasprm", "dynprm"]

def siteAttributes : List (String × AttributeType) :=
  typed .string ["type", "material"] ++
  typed .int ["group"] ++
  typed .floatArray ["size", "fromto", "rgba"]

def cameraAttributes : List (String × AttributeType) :=
  typed .string ["mode", "target"] ++
  typed .float ["fovy", "ipd"]

def lightAttributes : List (String × AttributeType) :=
  typed .string ["mode", "target", "directional", "castshadow", "active"] ++
  typed .float ["cutoff", "exponent"] ++
  typed .floatArray ["dir", "attenuation", "ambient", "diffuse", "specular"]

def sensorAttributes : List (String × AttributeType) :=
  typed .string ["site", "joint", "actuator", "objtype", "objname"] ++
  typed .float ["noise", "cutoff"]

def equalityAttributes : List (String × AttributeType) :=
  typed .string ["body1", "body2", "joint1", "joint2", "active"] ++
  typed .floatArray ["anchor", "polycoef", "solref", "solimp"]

def mjcf : Schema where
  kind := .mjcf
  rules := [
    element "mujoco" ["compiler", "option", "size", "visual", "statistic", "default", "asset",
      "worldbody", "contact", "equality", "tendon", "actuator", "sensor", "keyframe", "custom"]
      (typed .string ["model"]),
    element "compiler" []
      (typed .string ["angle", "coordinate", "meshdir", "texturedir", "assetdir", "eulerseq",
                      "inertiafromgeom", "balanceinertia", "autolimits"] ++
       typed .float ["boundmass", "boundinertia", "settotalmass"]),
    element "option" ["flag"]
      (typed .string ["integrator", "cone", "jacobian", "solver"] ++
       typed .int ["iterations"] ++
       typed .float ["timestep", "density", "viscosity", "tolerance"] ++
       typed .floatArray ["gravity", "wind"]),
    element "flag" [] (typed .string ["contact", "gravity", "warmstart", "energy"]),
    element "size" []
      (typed .string ["memory"] ++
       typed .int ["njmax", "nconmax", "nstack", "nuserdata", "nkey"]),
    element "visual" ["global", "quality", "headlight", "map", "scale", "rgba"] [],
    element "global" []
      (typed .int ["offwidth", "offheight"] ++
       typed .float ["fovy", "ipd", "azimuth", "elevation"]),
    element "quality" [] (typed .int ["shadowsize", "offsamples", "numslices"]),
    element "headlight" []
      (typed .int ["active"] ++
       typed .floatArray ["ambient", "diffuse", "specular"]),
    element "map" [] (typed .float ["znear", "zfar", "haze"]),
    element "scale" [] (typed .float ["forcewidth", "contactwidth", "framelength"]),
    element "rgba" [] (typed .floatArray ["haze", "fog", "com"]),
    element "statistic" []
      (typed .float ["meanmass", "meansize", "extent"] ++
       typed .floatArray ["center"]),
    element "default" ["default", "mesh", "material", "joint", "geom", "site", "camera", "light",
      "motor", "position", "velocity", "general"] (typed .string ["class"]),
    element "asset" ["mesh", "material", "texture", "hfield", "skin"] [],
    element "mesh" []
      (named ++
       typed .string ["file"] ++
       typed .intArray ["face"] ++
       typed .floatArray ["scale", "refpos", "refquat", "vertex"]),
    element "material" []
      (named ++
       typed .string ["texture", "texuniform"] ++
       typed .float ["emission", "shininess", "reflectance"] ++
       typed .floatArray ["texrepeat", "specular", "rgba"]),
    element "texture" []
      (typed .string ["name", "type", "builtin", "file", "mark", "gridlayout"] ++
       typed .int ["width", "height"] ++
       typed .float ["random"] ++
       typed .intArray ["gridsize"] ++
       typed .floatArray ["rgb1", "rgb2", "markrgb"]),
    element "hfield" []
      (typed .string ["name", "file"] ++
       typed .int ["nrow", "ncol"] ++
       typed .floatArray ["size"]),
    element "skin" []
      (typed .string ["name", "file", "material"] ++
       typed .floatArray ["rgba"]),
    element "worldbody" ["body", "geom", "site", "camera", "light"] [],
    element "body" ["body", "inertial", "joint", "freejoint", "geom", "site", "camera", "light"]
      (typed .string ["name", "childclass", "mocap"] ++
       typed .floatArray ["user"] ++
       posed),
    element "inertial" []
      (posed ++
       typed .float ["mass"] ++
       typed .floatArray ["diaginertia", "fullinertia"]),
    element "joint" [] (named ++ jointAttributes ++ typed .floatArray ["pos"]),
    element "freejoint" []
      (typed .string ["name"] ++
       typed .int ["group"]),
    element "geom" [] (named ++ posed ++ geomAttributes),
    element "site" [] (named ++ posed ++ siteAttributes),
    element "camera" [] (named ++ posed ++ cameraAttributes),
    element "light" [] (named ++ typed .floatArray ["pos"] ++ lightAttributes),
    element "contact" ["pair", "exclude"] [],
    element "pair" []
      (named ++
       typed .string ["geom1", "geom2"] ++
       typed .int ["condim"] ++
       typed .float ["margin", "gap"] ++
       typed .floatArray ["friction", "solref", "solimp"]),
    element "exclude" [] (typed .string ["name", "body1", "body2"]),
    element "equality" ["connect", "weld", "joint"] [],
    element "connect" [] (named ++ equalityAttributes),
    element "weld" [] (named ++ equalityAttributes ++ typed .floatArray ["relpose"]),
    element "tendon" ["fixed", "spatial"] [],
    element "fixed" ["joint"]
      (named ++
       typed .string ["limited"] ++
       typed .float ["stiffness", "damping"] ++
       typed .floatArray ["range"]),
    element "spatial" ["site", "geom"]
      (named ++
       typed .string ["limited", "material"] ++
       typed .float ["width"] ++
       typed .floatArray ["range", "rgba"]),
    element "actuator" ["motor", "position", "velocity", "general"] [],
    element "motor" [] (named ++ actuatorAttributes),
    element "position" [] (named ++ actuatorAttributes),
    element "velocity" [] (named ++ actuatorAttributes),
    element "general" [] (named ++ actuatorAttributes),
    element "sensor" ["touch", "accelerometer", "velocimeter", "gyro", "force", "torque", "jointpos",
      "jointvel", "actuatorfrc", "framepos", "framequat"] [],
    element "touch" [] (named ++ sensorAttributes),
    element "accelerometer" [] (named ++ sensorAttributes),
    element "velocimeter" [] (named ++ sensorAttributes),
    element "gyro" [] (named ++ sensorAttributes),
    element "force" [] (named ++ sensorAttributes),
    element "torque" [] (named ++ sensorAttributes),
    element "jointpos" [] (named ++ sensorAttributes),
    element "jointvel" [] (named ++ sensorAttributes),
    element "actuatorfrc" [] (named ++ sensorAttributes),
    element "framepos" [] (named ++ sensorAttributes),
    element "framequat" [] (named ++ sensorAttributes),
    element "keyframe" ["key"] [],
    element "key" []
      (typed .string ["name"] ++
       typed .float ["time"] ++
       typed .floatArray ["qpos", "qvel", "act", "ctrl"]),
    element "custom" ["numeric", "text"] [],
    element "numeric" []
      (typed .string ["name"] ++
       typed .int ["size"] ++
       typed .floatArray ["data"]),
    element "text" [] (typed .string ["name", "data"])]

end Articulation.Schema
