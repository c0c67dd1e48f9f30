import Articulation.Proofs.Geometry
/-! Frames from two ends. A cylinder or a capsule with two ends gets its frame from them, and no other shape
has one of its own. -/
namespace Articulation

/-- The frame of a segment, half way between its ends and with its z axis along it. -/
def Pose.ofEnds? : List Float32 → Option Pose
  | a :: b :: c :: d :: e :: f :: _ =>
    let first : Vec3 := ⟨a, b, c⟩
    let last : Vec3 := ⟨d, e, f⟩
    some ⟨(first + last).scale 0.5, .shortestArc .unitZ (last - first)⟩
  | _ => none

namespace Lookup

/-- The frame that the ends give a shape of a kind. -/
def segmentOf? (l : Lookup) : ShapeKind → Option Pose
  | .cylinder | .capsule => (l.floatArray? "fromto").bind Pose.ofEnds?
  | _ => none

def segment? (l : Lookup) : Option Pose :=
  l.segmentOf? ((ShapeKind.ofKeyword? ((l.string? "type").getD "sphere")).getD .sphere)

/-- Nothing but type and ends decides on it. -/
theorem segment?_congr {l m : Lookup} (type : l.string? "type" = m.string? "type")
    (ends : l.floatArray? "fromto" = m.floatArray? "fromto") : l.segment? = m.segment? := by
  rw [segment?, type, segment?]
  cases (ShapeKind.ofKeyword? ((m.string? "type").getD "sphere")).getD .sphere <;>
    simp only [segmentOf?, ends]

end Lookup

namespace Geometry

variable {surroundings : Surroundings} {scope : Scope} {label : String} {kind : ShapeKind}
  {s t : Session} {shape : Shape}

/-- The shape has the frame as one of its own, or none. -/
structure Framed (frame : Option Pose) (shape : Shape) : Prop where
  derived : shape.fromSegment = frame.isSome
  pose : ∀ p, frame = some p → shape.pose = p

theorem Framed.none (derived : shape.fromSegment = false) : Framed .none shape :=
  ⟨derived, fun _ found => nomatch found⟩

theorem framed_ofSize {α : Type} {m : StateM Session α} {size : α → Vec3}
    (run : ((fun x => Shape.ofSize kind (size x)) <$> m).run s = (shape, t)) : Framed none shape := by
  obtain ⟨x, _, rfl⟩ := run_map.mp run
  exact .none rfl

theorem framed_segment {ends sizes : List Float32}
    (run : (segment kind label ends sizes).run s = (shape, t)) : Framed (Pose.ofEnds? ends) shape := by
  unfold segment at run
  split at run
  · -- with or without a radius, the frame is that of the ends
    dsimp only at run
    split at run
    all_goals
      obtain ⟨radius, u, _, run⟩ := run_bind.mp run
      obtain ⟨rfl, _⟩ := run_pure.mp run
      exact ⟨rfl, fun _ found => Option.some.inj found⟩
  · rename_i few
    have none : Pose.ofEnds? ends = .none := by
      unfold Pose.ofEnds?
      split
      · exact absurd rfl (few _ _ _ _ _ _ _)
      · rfl
    obtain ⟨_, u, _, run⟩ := run_bind.mp run
    obtain ⟨rfl, _⟩ := run_pure.mp run
    rw [none]
    exact .none rfl

theorem framed_ofKind (run : (ofKind surroundings scope label kind).run s = (shape, t)) :
    Framed (scope.lookup.segmentOf? kind) shape := by
  cases kind with
  | plane => exact framed_ofSize run
  | sphere => exact framed_ofSize run
  | box => exact framed_ofSize run
  | ellipsoid => exact framed_ofSize run
  | cylinder | capsule =>
    rw [Lookup.segmentOf?]
    dsimp only [ofKind] at run
    split at run
    · rename_i ends given
      rw [given]
      exact framed_segment run
    · rename_i missing
      rw [missing]
      exact framed_ofSize run
  | mesh =>
    dsimp only [ofKind] at run
    split at run
    · obtain ⟨mesh, u, _, run⟩ := run_bind.mp run
      obtain ⟨rfl, _⟩ := run_pure.mp run
      exact .none rfl
    · obtain ⟨_, u, _, run⟩ := run_bind.mp run
      obtain ⟨rfl, _⟩ := run_pure.mp run
      exact .none rfl
  | heightfield =>
    obtain ⟨_, u, got, run⟩ := run_bind.mp run
    cases got
    split at run
    · obtain ⟨rfl, _⟩ := run_pure.mp run
      exact .none rfl
    · obtain ⟨_, u, _, run⟩ := run_bind.mp run
      obtain ⟨rfl, _⟩ := run_pure.mp run
      exact .none rfl

theorem kindOf_fst (label keyword : String) :
    ((kindOf label keyword).run s).1 = (ShapeKind.ofKeyword? keyword).getD .sphere := by
  unfold kindOf
  cases ShapeKind.ofKeyword? keyword <;> rfl

theorem framed_ofGeom (run : (ofGeom surroundings scope).run s = (shape, t)) :
    Framed scope.lookup.segment? shape := by
  obtain ⟨kind, u, chosen, run⟩ := run_bind.mp run
  have same := kindOf_fst (s := s) (scope.element.name?.getD scope.element.kind)
    ((scope.lookup.string? "type").getD "sphere")
  rw [chosen] at same
  rw [Lookup.segment?, ← same]
  exact framed_ofKind run

end Geometry

end Articulation
