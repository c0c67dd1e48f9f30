import Articulation.Proofs.Mjcf.Frames
import Articulation.Proofs.Placement
/-! What decides on a pose. Of an element it is the position and one encoding of the rotation; of a geom
between two ends it is the ends alone, and neither position nor rotation counts. -/
namespace Articulation.Mjcf

variable {r q : Rules} {surroundings elsewhere : Surroundings} {inherited other : Option String}
  {e f : Element}

/-! ### Geoms between two ends -/

/-- The shape has the frame of the ends that the geom resolves to, if they give it one. -/
abbrev Spans (r : Rules) (inherited : Option String) (e : Element) (shape : Shape) : Prop :=
  Geometry.Framed (r.scope inherited e).lookup.segment? shape

theorem spans_of_frame {shape : Shape} (frame : shape.pose = geomFrame r inherited e)
    (segment : shape.fromSegment = isSegment r inherited e) : Spans r inherited e shape := by
  refine ⟨segment, fun p found => ?_⟩
  rw [frame, geomFrame, found, Option.getD_some]

theorem spans_geom (s : Session) :
    Spans r inherited e ((geom r surroundings inherited e).run s).1.1.shape ∧
      Spans r inherited e ((geom r surroundings inherited e).run s).1.2.shape := by
  have run : (geom r surroundings inherited e).run s =
      (((geom r surroundings inherited e).run s).1, ((geom r surroundings inherited e).run s).2) := rfl
  obtain ⟨frame, segment⟩ := framed_geom run
  have spans := spans_of_frame frame segment
  exact ⟨spans, (run_geom run).2.shape ▸ spans⟩

theorem Spans.congr {shape changed : Shape} (spans : Spans r inherited e shape)
    (again : Spans q other f changed)
    (type : (r.scope inherited e).lookup.string? "type" = (q.scope other f).lookup.string? "type")
    (ends : (r.scope inherited e).lookup.floatArray? "fromto" =
      (q.scope other f).lookup.floatArray? "fromto") (derived : shape.fromSegment = true) :
    changed.fromSegment = true ∧ changed.pose = shape.pose := by
  have segment := Lookup.segment?_congr type ends
  rw [spans.derived] at derived
  obtain ⟨frame, found⟩ := Option.isSome_iff_exists.mp derived
  constructor
  · rw [again.derived, ← segment, derived]
  · rw [spans.pose frame found, again.pose frame (segment ▸ found)]

/-- Collider and drawable of each geom on a link have the frame of its ends, if these give it one. -/
structure HasSegments (r : Rules) (surroundings : Surroundings) (origin : Option String × Element)
    (link : Link) : Prop where
  colliders : List.Forall₂ (fun e c => IsColliderOf r surroundings (handing origin).1 e c ∧
      Spans r (handing origin).1 e c.shape)
    (origin.2.children.filter isGeom) link.colliders
  drawables : List.Forall₂ (fun e d => IsDrawableOf r surroundings (handing origin).1 e d ∧
      Spans r (handing origin).1 e d.shape)
    (origin.2.children.filter isGeom) link.drawables

theorem hasSegments_of_stood {origin : Option String × Element} {link : Link}
    (same : IsLinkOf r surroundings (handing origin) link) (stood : Stood r .relative origin link) :
    HasSegments r surroundings origin link := by
  constructor
  case colliders =>
    have frames := forall₂_and (forall₂_of_map_eq stood.colliders).flip (forall₂_of_map_eq stood.derived).flip
    refine (forall₂_and same.holds.colliders frames).imp fun e c both => ⟨both.1, ?_⟩
    exact spans_of_frame both.2.1 both.2.2
  case drawables =>
    have frames := forall₂_and (forall₂_of_map_eq stood.drawables).flip (forall₂_of_map_eq stood.drawn).flip
    refine (forall₂_and same.holds.drawables frames).imp fun e d both => ⟨both.1, ?_⟩
    exact spans_of_frame both.2.1 both.2.2

/-! ### Poses -/

/-- One encoding decides on a rotation: elements that agree on the position and up to the first encoding that
counts have the same pose, and what the chosen values stand for is the rotation, be they degenerate or not.
Where two ends give a geom its frame they decide alone: geoms of one type with the same ends stand alike, and
so they do in the models of documents with relative frames. -/
theorem poses_decided :
    (∀ (a b : Scope) (unit : AngleUnit), a.lookup.vec3? "pos" = b.lookup.vec3? "pos" →
      Encoding.SameChoice a.lookup b.lookup Encoding.all → a.lookup.pose unit = b.lookup.pose unit) ∧
    (∀ (a : Scope) (unit : AngleUnit) (c : Encoding) (values : List Float32),
      c.Chosen a.lookup values → (a.lookup.pose unit).rotation = c.turn unit values) ∧
    (∀ (r q : Rules) (surroundings elsewhere : Surroundings) (inherited other : Option String)
      (e f : Element) (s t : Session),
      (r.scope inherited e).lookup.string? "type" = (q.scope other f).lookup.string? "type" →
      (r.scope inherited e).lookup.floatArray? "fromto" = (q.scope other f).lookup.floatArray? "fromto" →
      let sides := ((geom r surroundings inherited e).run s).1
      let changed := ((geom q elsewhere other f).run t).1
      sides.1.shape.fromSegment = true → changed.1.shape.fromSegment = true ∧
        changed.1.shape.pose = sides.1.shape.pose ∧ changed.2.shape.pose = sides.2.shape.pose) ∧
    ∀ (surroundings : Surroundings) (kind : SchemaKind) (root : Element) (robot : Robot),
      (documentRules surroundings root).coordinate = .relative →
      compile surroundings kind root = .ok robot →
      ∃ world first, root.child? "worldbody" = some world ∧ world.child? "body" = some first ∧
        Rose.Matches (HasSegments (documentRules surroundings root) (located surroundings root))
          (scopedTree none first) robot.linkage.root := by
  refine ⟨?_, ?_, ?_, ?_⟩
  · intro a b unit position same
    exact Lookup.pose_congr position same unit
  · intro a unit c values chosen
    exact Lookup.rotation_of_chosen chosen
  · intro r q surroundings elsewhere inherited other e f s t type ends sides changed derived
    obtain ⟨collider, drawable⟩ := @spans_geom r surroundings inherited e s
    obtain ⟨first, second⟩ := @spans_geom q elsewhere other f t
    obtain ⟨also, frame⟩ := collider.congr first type ends derived
    have drawn : sides.2.shape.fromSegment = true := by
      rw [drawable.derived, ← collider.derived, derived]
    exact ⟨also, frame, (drawable.congr second type ends drawn).2⟩
  · intro surroundings kind root robot mode compiled
    obtain ⟨world, first, below, inside, tree⟩ := compile_stood compiled
    refine ⟨world, first, below, inside, tree.imp fun {origin link} both => ?_⟩
    exact hasSegments_of_stood both.1 (mode ▸ both.2)

/-- A geom between two ends that also writes a position and angles, one too few of them; a default gives it
components. -/
def rodText : String :=
  "<mujoco><default><geom quat='0 1 0 0'/></default><worldbody><body><geom name='rod' type='capsule' "
    ++ "size='0.1' fromto='0 0 0 0 0 2' euler='0 90' pos='5 5 5'/></body></worldbody></mujoco>"

def rodElement : Element :=
  .node ⟨"geom", .ofList [("name", .string "rod"), ("type", .string "capsule"), ("size", .floatArray [0.1]),
    ("fromto", .floatArray [0, 0, 0, 0, 0, 2]), ("euler", .floatArray [0, 90]),
    ("pos", .floatArray [5, 5, 5])]⟩ []

def rod : ElementTree :=
  .ofElement Schema.mjcf (element "mujoco" []
    [element "default" [] [.node ⟨"geom", .ofList [("quat", .floatArray [0, 1, 0, 0])]⟩ []],
      element "worldbody" [] [element "body" [] [rodElement]]])

/-- A geom with the same ends and the same components, but other encodings behind them. -/
def turnedRod : Element :=
  .node ⟨"geom", .ofList [("type", .string "capsule"), ("fromto", .floatArray [0, 0, 0, 0, 0, 2]),
    ("pos", .floatArray [5, 5, 5]), ("quat", .floatArray [0, 1, 0, 0]), ("zaxis", .floatArray [1, 0, 0])]⟩ []

def rodRules : Rules := documentRules (.ofSettings .standard) rod.root

theorem poses_decided_rod :
    ElementTree.read Schema.mjcf rodText = .ok rod ∧
    (rodRules.scope none rodElement).lookup.pose .degree =
      (rodRules.scope none turnedRod).lookup.pose .degree ∧
    ((rodRules.scope none rodElement).lookup.pose .degree).rotation =
      Encoding.quat.turn .degree [0, 1, 0, 0] ∧
    ((geom rodRules (.ofSettings .standard) none turnedRod).run .start).1.1.shape.pose =
      ((geom rodRules (.ofSettings .standard) none rodElement).run .start).1.1.shape.pose ∧
    ∃ robot, compile (.ofSettings .standard) .mjcf rod.root = .ok robot ∧
      robot.bodyNames = ["body_0"] ∧
      ∃ world first, rod.root.child? "worldbody" = some world ∧ world.child? "body" = some first ∧
        Rose.Matches (HasSegments rodRules (located (.ofSettings .standard) rod.root))
          (scopedTree none first) robot.linkage.root := by
  obtain ⟨alike, chosen, between, models⟩ := poses_decided
  have names : Robot.bodyNames <$> compile (.ofSettings .standard) .mjcf rod.root = .ok ["body_0"] := by
    decide +kernel
  obtain ⟨robot, compiled, named⟩ := map_eq_ok.mp names
  refine ⟨by decide +kernel, ?_, ?_, ?_, robot, compiled, named, ?_⟩
  · have same : Encoding.SameChoice (rodRules.scope none rodElement).lookup
        (rodRules.scope none turnedRod).lookup Encoding.all :=
      ⟨by decide +kernel, fun _ => ⟨by decide +kernel, fun none => absurd none (by decide +kernel)⟩⟩
    exact alike _ _ .degree (by decide +kernel) same
  · have first : Encoding.quat.Chosen (rodRules.scope none rodElement).lookup [0, 1, 0, 0] :=
      ⟨[.euler], [.zaxis, .axisangle, .xyaxes], rfl, by decide +kernel, by decide +kernel⟩
    exact chosen _ .degree _ _ first
  · exact (between rodRules rodRules _ _ none none rodElement turnedRod .start .start
      (by decide +kernel) (by decide +kernel) (by decide +kernel)).2.1
  · exact models _ _ _ robot (by decide +kernel) compiled

end Articulation.Mjcf
