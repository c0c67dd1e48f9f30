/-! Sample documents, one for each dialect. -/
namespace Articulation.Sample

/-- A hopper with one leg: classes of default values, a class for nested bodies, capsules between two
ends, assets, actuators and an excluded contact. Its bodies are torso, thigh, leg and foot. -/
def hopper : String := r#"
<mujoco model="hopper">
  <compiler angle="degree" meshdir="meshes"/>
  <default>
    <joint damping="1" armature="0.01"/>
    <geom friction="0.9" rgba="0.8 0.6 0.4 1"/>
    <default class="limb">
      <joint type="hinge" axis="0 1 0" range="-150 0"/>
      <geom type="capsule" size="0.05 0.2"/>
    </default>
    <default class="foot">
      <geom type="box" size="0.1 0.05 0.02" contype="2"/>
    </default>
  </default>
  <asset>
    <mesh name="torso_shell" file="torso.stl" scale="0.5 0.5 0.5"/>
    <material name="skin" rgba="0.9 0.7 0.6 1" specular="0.3" shininess="0.25"/>
  </asset>
  <worldbody>
    <geom name="floor" type="plane" size="10 10 0.1"/>
    <body name="torso" pos="0 0 1.25">
      <freejoint name="root"/>
      <inertial pos="0 0 0" mass="5" diaginertia="0.1 0.1 0.05"/>
      <geom name="torso_geom" type="capsule" fromto="0 0 -0.2 0 0 0.2" size="0.07" material="skin"/>
      <geom name="shell" type="mesh" mesh="torso_shell"/>
      <body name="thigh" pos="0 0 -0.2" childclass="limb">
        <joint name="hip"/>
        <geom name="thigh_geom" pos="0 0 -0.225"/>
        <body name="leg" pos="0 0 -0.45">
          <joint name="knee"/>
          <geom name="leg_geom" fromto="0 0 0 0 0 -0.5" size="0.04"/>
          <body name="foot" pos="0 0 -0.5">
            <joint name="ankle" range="-45 45"/>
            <geom name="foot_geom" class="foot" pos="0.06 0 0"/>
          </body>
        </body>
      </body>
    </body>
  </worldbody>
  <contact>
    <exclude body1="torso" body2="foot"/>
  </contact>
  <actuator>
    <motor name="hip_motor" joint="hip" gear="200" ctrlrange="-1 1"/>
    <motor name="knee_motor" joint="knee" gear="200"/>
    <position name="ankle_servo" joint="ankle" kp="20"/>
  </actuator>
</mujoco>
"#

/-- An arm with three joints, links and joints out of order, shared meshes and both named and embedded
materials. Its links are base_link, upper_arm, forearm and gripper. -/
def arm : String := r#"
<robot name="arm">
  <material name="blue"><color rgba="0 0 0.8 1"/></material>
  <link name="gripper">
    <visual>
      <geometry><mesh filename="meshes/gripper.stl" scale="0.001 0.001 0.001"/></geometry>
      <material name="blue"/>
    </visual>
    <collision><geometry><box size="0.05 0.05 0.1"/></geometry></collision>
  </link>
  <link name="forearm">
    <inertial>
      <mass value="0.8"/>
      <inertia ixx="0.01" ixy="0" ixz="0" iyy="0.01" iyz="0" izz="0.001"/>
    </inertial>
    <visual>
      <origin xyz="0 0 0.15"/>
      <geometry><cylinder radius="0.03" length="0.3"/></geometry>
    </visual>
    <collision>
      <origin xyz="0 0 0.15"/>
      <geometry><capsule radius="0.03" length="0.3"/></geometry>
    </collision>
  </link>
  <link name="base_link">
    <visual>
      <geometry><box size="0.2 0.2 0.1"/></geometry>
      <material name="grey"><color rgba="0.5 0.5 0.5 1"/></material>
    </visual>
  </link>
  <link name="upper_arm">
    <visual><geometry><mesh filename="meshes/upper.stl"/></geometry></visual>
    <collision><geometry><mesh filename="meshes/upper.stl"/></geometry></collision>
  </link>
  <joint name="wrist" type="fixed">
    <parent link="forearm"/>
    <child link="gripper"/>
    <origin xyz="0 0 0.3"/>
  </joint>
  <joint name="elbow" type="continuous">
    <parent link="upper_arm"/>
    <child link="forearm"/>
    <origin xyz="0 0 0.4"/>
    <axis xyz="0 1 0"/>
  </joint>
  <joint name="shoulder" type="revolute">
    <parent link="base_link"/>
    <child link="upper_arm"/>
    <origin xyz="0 0 0.1" rpy="0 0 1.5707963"/>
    <axis xyz="0 0 1"/>
    <limit lower="-1.5" upper="1.5" effort="10" velocity="1"/>
    <dynamics damping="0.2"/>
  </joint>
</robot>
"#

/-- A biped whose y axis points up: a free root with one leg and one arm. Its bodies are pelvis, thigh,
shin and upper_arm. -/
def walker : String := "\x7b
  \"Skeleton\": \x7b
    \"Joints\": [
      \x7b \"Name\": \"root\", \"Type\": \"none\", \"Parent\": -1 \x7d,
      \x7b \"Name\": \"hip\", \"Type\": \"revolute\", \"Parent\": 0, \"AttachY\": -0.1,
        \"LimLow0\": -2.0, \"LimHigh0\": 1.0, \"TorqueLim\": 200 \x7d,
      \x7b \"Name\": \"knee\", \"Type\": \"revolute\", \"Parent\": 1, \"AttachY\": -0.45,
        \"LimLow0\": 0.0, \"LimHigh0\": 2.5, \"TorqueLim\": 150 \x7d,
      \x7b \"Name\": \"shoulder\", \"Type\": \"spherical\", \"Parent\": 0, \"AttachY\": 0.4, \"AttachX\": 0.1 \x7d
    ]
  \x7d,
  \"BodyDefs\": [
    \x7b \"Name\": \"pelvis\", \"Shape\": \"box\", \"Mass\": 6, \"Param0\": 0.2, \"Param1\": 0.2, \"Param2\": 0.3 \x7d,
    \x7b \"Name\": \"thigh\", \"Shape\": \"capsule\", \"Mass\": 4, \"Param0\": 0.1, \"Param1\": 0.35, \"AttachY\": -0.2 \x7d,
    \x7b \"Name\": \"shin\", \"Shape\": \"capsule\", \"Mass\": 3, \"Param0\": 0.08, \"Param1\": 0.35, \"AttachY\": -0.2 \x7d,
    \x7b \"Name\": \"upper_arm\", \"Shape\": \"sphere\", \"Mass\": 1, \"Param0\": 0.1 \x7d
  ],
  \"DrawShapeDefs\": [
    \x7b \"Name\": \"pelvis_vis\", \"Shape\": \"box\", \"ParentJoint\": 0, \"Param0\": 0.2, \"Param1\": 0.2, \"Param2\": 0.3,
      \"ColorR\": 0.9, \"ColorG\": 0.1, \"ColorB\": 0.1 \x7d,
    \x7b \"Name\": \"thigh_vis\", \"Shape\": \"capsule\", \"ParentJoint\": 1, \"Param0\": 0.1, \"Param1\": 0.35, \"AttachY\": -0.2 \x7d
  ]
\x7d"

end Articulation.Sample
