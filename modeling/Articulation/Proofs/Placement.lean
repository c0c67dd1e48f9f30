import Articulation.Placement
/-! The rotation of an element comes from one of its encodings, the first in a fixed order that has as many
values as it needs. What the later ones hold does not matter, whatever the chosen values are. -/
namespace Articulation

/-- The ways to write a rotation. -/
inductive Encoding where
  | euler
  | quat
  | zaxis
  | axisangle
  | xyaxes
deriving DecidableEq, Repr

namespace Encoding

/-- All of them, those that count first in front. -/
def all : List Encoding := [euler, quat, zaxis, axisangle, xyaxes]

def name : Encoding → String
  | euler => "euler"
  | quat => "quat"
  | zaxis => "zaxis"
  | axisangle => "axisangle"
  | xyaxes => "xyaxes"

def arity : Encoding → Nat
  | euler | zaxis => 3
  | quat | axisangle => 4
  | xyaxes => 6

/-- The values of an encoding, in whatever number. Frame axes alone are not read from whole numbers. -/
def items? (l : Lookup) : Encoding → Option (List Float32)
  | xyaxes => l.floatArray? "xyaxes"
  | c => (l c.name).bind AttributeValue.components?

/-- The values of an encoding that has as many as it needs. -/
def values? (l : Lookup) (c : Encoding) : Option (List Float32) :=
  (c.items? l).filter (·.length == c.arity)

/-- The rotation that values stand for. Degenerate ones stand for no turn. -/
def turn (unit : AngleUnit) : Encoding → List Float32 → Rotation
  | euler, [x, y, z] => .ofEuler ((⟨x, y, z⟩ : Vec3).map unit.toRadians)
  | quat, [w, x, y, z] => (Rotation.ofComponents? w x y z).getD .identity
  | zaxis, [x, y, z] => .shortestArc .unitZ ⟨x, y, z⟩
  | axisangle, [x, y, z, angle] => .ofAxisAngle ⟨x, y, z⟩ (unit.toRadians angle)
  | xyaxes, [a, b, c, d, e, f] => (Rotation.ofFrameAxes? ⟨a, b, c⟩ ⟨d, e, f⟩).getD .identity
  | _, _ => .identity

def turn? (l : Lookup) (unit : AngleUnit) (c : Encoding) : Option Rotation :=
  (c.values? l).map (c.turn unit)

/-- The encoding is the first that has as many values as it needs, and these are they. -/
def Chosen (l : Lookup) (c : Encoding) (values : List Float32) : Prop :=
  ∃ before after, all = before ++ c :: after ∧ (∀ d ∈ before, d.values? l = none) ∧
    c.values? l = some values

/-- Of encodings in this order, the first one that has as many values as it needs has the same values in both,
and those before it have none that count. -/
def SameChoice (l m : Lookup) : List Encoding → Prop
  | [] => True
  | c :: rest => c.values? l = c.values? m ∧ (c.values? l = none → SameChoice l m rest)

end Encoding

namespace Lookup

open Encoding

variable {l m : Lookup} {unit : AngleUnit}

theorem turn?_of_three {c : Encoding} {f : Vec3 → Rotation} (three : c.arity = 3)
    (items : c.items? l = (l c.name).bind AttributeValue.components?)
    (same : ∀ x y z, c.turn unit [x, y, z] = f ⟨x, y, z⟩) : c.turn? l unit = (l.vec3? c.name).map f := by
  rw [turn?, values?, items, three, vec3?]
  cases (l c.name).bind AttributeValue.components? with
  | none => rfl
  | some values =>
    match values with
    | [x, y, z] => exact congrArg some (same x y z)
    | [] | [_] | [_, _] | _ :: _ :: _ :: _ :: _ => rfl

theorem turn?_of_four {c : Encoding} {f : Float32 × Float32 × Float32 × Float32 → Rotation}
    (four : c.arity = 4) (items : c.items? l = (l c.name).bind AttributeValue.components?)
    (same : ∀ w x y z, c.turn unit [w, x, y, z] = f (w, x, y, z)) :
    c.turn? l unit = (l.vec4? c.name).map f := by
  rw [turn?, values?, items, four, vec4?, vector?]
  cases (l c.name).bind AttributeValue.components? with
  | none => rfl
  | some values =>
    match values with
    | [w, x, y, z] => exact congrArg some (same w x y z)
    | [] | [_] | [_, _] | [_, _, _] | _ :: _ :: _ :: _ :: _ :: _ => rfl

theorem turn?_xyaxes : xyaxes.turn? l unit =
    (l.axes? "xyaxes").map fun axes => (Rotation.ofFrameAxes? axes.1 axes.2).getD .identity := by
  rw [turn?, values?, items?, axes?]
  cases l.floatArray? "xyaxes" with
  | none => rfl
  | some values =>
    match values with
    | [a, b, c, d, e, f] => rfl
    | [] | [_] | [_, _] | [_, _, _] | [_, _, _, _] | [_, _, _, _, _] => rfl
    | _ :: _ :: _ :: _ :: _ :: _ :: _ :: _ => rfl

/-- The rotation of an element is the turn of the first encoding that has one. -/
theorem rotation_eq (l : Lookup) (unit : AngleUnit) :
    l.rotation unit = (all.findSome? fun c => c.turn? l unit).getD .identity := by
  have angles : euler.turn? l unit =
      (l.vec3? "euler").map fun angles => .ofEuler (angles.map unit.toRadians) :=
    turn?_of_three rfl rfl fun _ _ _ => rfl
  have components : quat.turn? l unit =
      (l.vec4? "quat").map fun q => (Rotation.ofComponents? q.1 q.2.1 q.2.2.1 q.2.2.2).getD .identity :=
    turn?_of_four rfl rfl fun _ _ _ _ => rfl
  have direction : zaxis.turn? l unit = (l.vec3? "zaxis").map fun axis => .shortestArc .unitZ axis :=
    turn?_of_three rfl rfl fun _ _ _ => rfl
  have axis : axisangle.turn? l unit =
      (l.vec4? "axisangle").map fun a => .ofAxisAngle ⟨a.1, a.2.1, a.2.2.1⟩ (unit.toRadians a.2.2.2) :=
    turn?_of_four rfl rfl fun _ _ _ _ => rfl
  simp only [all, List.findSome?_cons, List.findSome?_nil, angles, components, direction, axis,
    turn?_xyaxes, rotation]
  cases l.vec3? "euler" with
  | some angles => rfl
  | none =>
    cases l.vec4? "quat" with
    | some components => rfl
    | none =>
      cases l.vec3? "zaxis" with
      | some direction => rfl
      | none =>
        cases l.vec4? "axisangle" with
        | some axis => rfl
        | none => cases l.axes? "xyaxes" <;> rfl

theorem rotation_of_chosen {c : Encoding} {values : List Float32} (chosen : Chosen l c values) :
    l.rotation unit = c.turn unit values := by
  obtain ⟨before, after, order, unusable, found⟩ := chosen
  have first : before.findSome? (fun d => d.turn? l unit) = none := by
    refine List.findSome?_eq_none_iff.mpr fun d member => ?_
    rw [turn?, unusable d member]
    rfl
  have here : c.turn? l unit = some (c.turn unit values) := by
    rw [turn?, found]
    rfl
  rw [rotation_eq, order, List.findSome?_append, first, List.findSome?_cons, here]
  rfl

theorem findSome?_turn?_congr {encodings : List Encoding} (same : SameChoice l m encodings)
    (unit : AngleUnit) :
    encodings.findSome? (fun c => c.turn? l unit) = encodings.findSome? fun c => c.turn? m unit := by
  induction encodings with
  | nil => rfl
  | cons c rest ih =>
    obtain ⟨here, later⟩ := same
    rw [List.findSome?_cons, List.findSome?_cons, turn?, turn?, ← here]
    cases found : c.values? l with
    | some values => rfl
    | none => exact ih (later found)

/-- The values that an element has beyond those that decide make no difference. -/
theorem pose_congr (position : l.vec3? "pos" = m.vec3? "pos") (same : SameChoice l m all) (unit : AngleUnit) :
    l.pose unit = m.pose unit := by
  rw [pose, pose, position, rotation_eq, rotation_eq, findSome?_turn?_congr same]

end Lookup

end Articulation
