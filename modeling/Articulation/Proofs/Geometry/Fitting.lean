import Articulation.Proofs.Geometry
/-! Which data fit a kind of shape. Where they do, the size is exactly what they say and nothing is reported;
where they do not, one report is made and a substitute stands in. A kind that is not known is reported apart
from that, and taken for a sphere. -/
namespace Articulation.Geometry

/-- What a geom gives for its shape. Its reference to a heightfield comes with what is registered under it. -/
structure Data where
  sizes : List Float32
  ends : Option (List Float32)
  mesh : Option String
  heightfield : String
  grid : Option Heightfield

/-- The kinds whose shape may stand between two ends. -/
def IsTube (kind : ShapeKind) : Prop := kind = .cylinder ∨ kind = .capsule

namespace Data

def ofLookup (l : Lookup) (a : Assets) : Data where
  sizes := (l.floatArray? "size").getD []
  ends := l.floatArray? "fromto"
  mesh := l.string? "mesh"
  heightfield := (l.string? "hfield").getD ""
  grid := a.heightfields.find? ((l.string? "hfield").getD "")

/-- The data are those that the kind needs. -/
def Fits (d : Data) : ShapeKind → Prop
  | .plane => 1 ≤ d.sizes.length
  | .sphere => d.sizes.length = 1
  | .box => d.sizes.length = 3
  | .ellipsoid => 3 ≤ d.sizes.length
  | .cylinder | .capsule =>
    match d.ends with
    | some ends => 6 ≤ ends.length ∧ 1 ≤ d.sizes.length
    | none => 2 ≤ d.sizes.length
  | .mesh => d.mesh.isSome = true
  | .heightfield => d.grid.isSome = true

/-- The sizes of shapes by the data that fit them, meshes as they are registered. -/
inductive Exact (data : Data) (assets : Assets) : ShapeKind → Vec3 → Prop where
  | square {s} : data.sizes = [s] → Exact data assets .plane ⟨s, s, 0⟩
  | plane {w d rest} : data.sizes = w :: d :: rest → Exact data assets .plane ⟨w, d, 0⟩
  | sphere {r} : data.sizes = [r] → Exact data assets .sphere ⟨r, 0, 0⟩
  | box {x y z} : data.sizes = [x, y, z] → Exact data assets .box ⟨2 * x, 2 * y, 2 * z⟩
  | ellipsoid {x y z rest} : data.sizes = x :: y :: z :: rest → Exact data assets .ellipsoid ⟨x, y, z⟩
  | tube {kind r half rest} : IsTube kind → data.ends = none → data.sizes = r :: half :: rest →
      Exact data assets kind ⟨r, 2 * half, 0⟩
  | segment {kind a b c d e f beyond r rest} : IsTube kind →
      data.ends = some (a :: b :: c :: d :: e :: f :: beyond) → data.sizes = r :: rest →
      Exact data assets kind ⟨r, (⟨d, e, f⟩ - ⟨a, b, c⟩ : Vec3).norm, 0⟩
  | mesh {id mesh} : data.mesh = some id → assets.meshes.find? id = some mesh →
      Exact data assets .mesh mesh.scale
  | heightfield {grid} : data.grid = some grid →
      Exact data assets .heightfield ⟨grid.extent.radiusX, grid.extent.radiusY, grid.extent.elevation⟩

/-- The sizes that stand in where the data do not fit, each with what is wrong then. -/
inductive Substitute (data : Data) : ShapeKind → Vec3 → Misfit → Prop where
  | plane : Substitute data .plane ⟨3, 3, 0⟩ .planeWithoutSize
  | noRadius : data.sizes = [] → Substitute data .sphere ⟨0.1, 0, 0⟩ .sphereWithoutRadius
  | firstRadius {r rest} : data.sizes = r :: rest →
      Substitute data .sphere ⟨r, 0, 0⟩ (.sphereSizes (rest.length + 1))
  | box : Substitute data .box (.splat 0.2) (.boxHalves data.sizes.length)
  | ellipsoid : Substitute data .ellipsoid (.splat 0.1) (.ellipsoidRadii data.sizes.length)
  | tube {kind} : IsTube kind → data.ends = none →
      Substitute data kind ⟨0.05, 0.1, 0⟩ (.tubeSizes kind data.sizes.length)
  | fewEnds {kind ends} : IsTube kind → data.ends = some ends → ends.length < 6 →
      Substitute data kind ⟨0.05, 0.1, 0⟩ (.segmentValues ends.length)
  | segment {kind a b c d e f beyond} : IsTube kind →
      data.ends = some (a :: b :: c :: d :: e :: f :: beyond) → data.sizes = [] →
      Substitute data kind ⟨0.25 * (⟨d, e, f⟩ - ⟨a, b, c⟩ : Vec3).norm,
        (⟨d, e, f⟩ - ⟨a, b, c⟩ : Vec3).norm, 0⟩ .segmentWithoutRadius
  | mesh : Substitute data .mesh (.splat 1) .meshWithoutReference

/-- The reports that a size calls for: none where it is exact, and one where it is a substitute. -/
inductive Judged (data : Data) (assets : Assets) (label : String) :
    ShapeKind → Vec3 → List Diagnostic → Prop where
  | exact {kind size} : data.Fits kind → data.Exact assets kind size → Judged data assets label kind size []
  | misfit {kind size m} : ¬ data.Fits kind → data.Substitute kind size m →
      Judged data assets label kind size [.malformedGeometry label m.message]
  | unresolved : ¬ data.Fits .heightfield →
      Judged data assets label .heightfield (.splat 1)
        [.unresolvedReference label "hfield" data.heightfield]

end Data

/-- One report at most, and none exactly where the data fit. -/
theorem Data.Judged.single {data : Data} {assets : Assets} {label : String} {kind : ShapeKind} {size : Vec3}
    {reports : List Diagnostic} (judged : data.Judged assets label kind size reports) :
    (reports = [] ↔ data.Fits kind) ∧ reports.length ≤ 1 := by
  cases judged with
  | exact fit _ => exact ⟨iff_of_true rfl fit, by simp⟩
  | misfit unfit _ => exact ⟨iff_of_false (by simp) unfit, by simp⟩
  | unresolved unfit => exact ⟨iff_of_false (by simp) unfit, by simp⟩

/-- The assets once a shape is made. A mesh by a reference that is new has joined them, and nothing else. -/
inductive Registered (surroundings : Surroundings) (l : Lookup) (before : Assets) :
    ShapeKind → Assets → Prop where
  | nothing {kind} : Registered surroundings l before kind before
  | mesh {id} : l.string? "mesh" = some id → before.meshes.find? id = none →
      Registered surroundings l before .mesh
        (before.addMesh ⟨id, surroundings.resolve id surroundings.meshDirectory, .splat 1⟩)

/-- A shape of a kind, what is registered with it and what is reported. -/
structure Fitted (surroundings : Surroundings) (label : String) (l : Lookup) (kind : ShapeKind)
    (before : Assets) (shape : Shape) (assets : Assets) (reports : List Diagnostic) : Prop where
  same : shape.kind = kind
  judged : Data.Judged (.ofLookup l before) assets label kind shape.size reports
  registered : Registered surroundings l before kind assets

/-! ### Long lists -/

section

variable {α : Type} {xs : List α}

theorem exists_two (long : 2 ≤ xs.length) : ∃ a b rest, xs = a :: b :: rest :=
  match xs, long with
  | a :: b :: rest, _ => ⟨a, b, rest, rfl⟩

theorem exists_three (long : 3 ≤ xs.length) : ∃ a b c rest, xs = a :: b :: c :: rest :=
  match xs, long with
  | a :: b :: c :: rest, _ => ⟨a, b, c, rest, rfl⟩

theorem exists_six (long : 6 ≤ xs.length) :
    ∃ a b c d e f rest, xs = a :: b :: c :: d :: e :: f :: rest :=
  match xs, long with
  | a :: b :: c :: d :: e :: f :: rest, _ => ⟨a, b, c, d, e, f, rest, rfl⟩

end

/-! ### Reports -/

/-- One value and one list of reports, whatever the session, of which something holds. -/
def ReportsWith {α : Type} (holds : α → List Diagnostic → Prop) (m : StateM Session α) : Prop :=
  ∃ x reports, holds x reports ∧ ∀ s, m.run s = (x, { s with diagnostics := s.diagnostics ++ reports })

namespace ReportsWith

variable {α β : Type} {holds : α → List Diagnostic → Prop} {m : StateM Session α}

theorem pure {x : α} (none : holds x []) : ReportsWith holds (Pure.pure x) := by
  refine ⟨x, [], none, fun s => run_pure.mpr ⟨rfl, ?_⟩⟩
  rw [List.append_nil]

theorem instead {x : α} {label : String} {misfit : Misfit}
    (one : holds x [.malformedGeometry label misfit.message]) :
    ReportsWith holds (Geometry.instead label misfit x) :=
  ⟨x, _, one, fun _ => rfl⟩

theorem map {after : β → List Diagnostic → Prop} {f : α → β}
    (reports : ReportsWith (fun x => after (f x)) m) : ReportsWith after (f <$> m) := by
  obtain ⟨x, reports, holds, run⟩ := reports
  exact ⟨f x, reports, holds, fun s => run_map.mpr ⟨x, run s, rfl⟩⟩

end ReportsWith

/-! ### Sizes -/

open Data (Judged)

variable {label : String} {data : Data} {assets : Assets} {kind : ShapeKind}

theorem judged_planeSize :
    ReportsWith (Judged data assets label .plane) (planeSize label data.sizes) := by
  unfold planeSize
  split
  · rename_i none
    exact .instead (.misfit (by simp [Data.Fits, none]) .plane)
  · rename_i s single
    exact .pure (.exact (by simp [Data.Fits, single]) (.square single))
  · rename_i w d rest several
    exact .pure (.exact (by simp [Data.Fits, several]) (.plane several))

theorem judged_sphereRadius :
    ReportsWith (fun r => Judged data assets label .sphere ⟨r, 0, 0⟩) (sphereRadius label data.sizes) := by
  unfold sphereRadius
  split
  · rename_i none
    exact .instead (.misfit (by simp [Data.Fits, none]) (.noRadius none))
  · rename_i r single
    exact .pure (.exact (by simp [Data.Fits, single]) (.sphere single))
  · rename_i r rest never several
    have unfit : ¬ data.Fits .sphere := by
      intro one
      obtain ⟨other, single⟩ := List.length_eq_one_iff.mp one
      exact never (List.cons.inj (several.symm.trans single)).2
    exact .instead (.misfit unfit (.firstRadius several))

theorem judged_boxSize : ReportsWith (Judged data assets label .box) (boxSize label data.sizes) := by
  unfold boxSize
  split
  · rename_i x y z listed
    exact .pure (.exact (by simp [Data.Fits, listed]) (.box listed))
  · rename_i never
    have unfit : ¬ data.Fits .box := by
      intro three
      obtain ⟨x, y, z, listed⟩ := List.length_eq_three.mp three
      exact never x y z listed
    exact .instead (.misfit unfit .box)

theorem judged_ellipsoidSize :
    ReportsWith (Judged data assets label .ellipsoid) (ellipsoidSize label data.sizes) := by
  unfold ellipsoidSize
  split
  · rename_i x y z rest listed
    exact .pure (.exact (by simp [Data.Fits, listed]) (.ellipsoid listed))
  · rename_i never
    have unfit : ¬ data.Fits .ellipsoid := by
      intro three
      obtain ⟨x, y, z, rest, listed⟩ := exists_three three
      exact never x y z rest listed
    exact .instead (.misfit unfit .ellipsoid)

theorem fits_tube (tube : IsTube kind) :
    data.Fits kind ↔ match data.ends with
      | some ends => 6 ≤ ends.length ∧ 1 ≤ data.sizes.length
      | none => 2 ≤ data.sizes.length := by
  rcases tube with rfl | rfl <;> rfl

theorem judged_tubeSize (tube : IsTube kind) (loose : data.ends = none) :
    ReportsWith (Judged data assets label kind) (tubeSize kind label data.sizes) := by
  have fits := @fits_tube data kind tube
  simp only [loose] at fits
  unfold tubeSize
  split
  · rename_i r half rest listed
    exact .pure (.exact (fits.mpr (by simp [listed])) (.tube tube loose listed))
  · rename_i never
    have unfit : ¬ data.Fits kind := by
      intro fit
      obtain ⟨r, half, rest, listed⟩ := exists_two (fits.mp fit)
      exact never r half rest listed
    exact .instead (.misfit unfit (.tube tube loose))

theorem judged_segment (tube : IsTube kind) {ends : List Float32} (spanned : data.ends = some ends) :
    ReportsWith (fun shape reports => shape.kind = kind ∧
      Judged data assets label kind shape.size reports) (segment kind label ends data.sizes) := by
  have fits := @fits_tube data kind tube
  simp only [spanned] at fits
  unfold segment
  split
  · rename_i a b c d e f rest
    dsimp only
    split
    · rename_i r more listed
      have fit : data.Fits kind := fits.mpr (by simp [listed])
      exact .pure ⟨rfl, .exact fit (.segment tube spanned listed)⟩
    · rename_i none
      have unfit : ¬ data.Fits kind := by simp [fits, none]
      exact .map (.instead ⟨rfl, .misfit unfit (.segment tube spanned none)⟩)
  · rename_i never
    have few : ends.length < 6 := by
      by_contra many
      obtain ⟨a, b, c, d, e, f, rest, listed⟩ := exists_six (Nat.le_of_not_lt many)
      exact never a b c d e f rest listed
    have unfit : ¬ data.Fits kind := fun fit => Nat.not_le_of_lt few (fits.mp fit).1
    exact .instead ⟨rfl, .misfit unfit (.fewEnds tube spanned few)⟩

/-! ### Shapes -/

variable {surroundings : Surroundings} {scope : Scope} {l : Lookup} {s : Session}

/-- A run that makes a fitted shape and changes nothing but assets and diagnostics. -/
def Makes (surroundings : Surroundings) (label : String) (l : Lookup) (kind : ShapeKind) (s : Session)
    (m : StateM Session Shape) : Prop :=
  ∃ shape assets reports,
    m.run s = (shape, { s with assets, diagnostics := s.diagnostics ++ reports }) ∧
    Fitted surroundings label l kind s.assets shape assets reports

/-- Where making a shape does no more than report, the assets stay as they are. -/
theorem Makes.of_reports {m : StateM Session Shape}
    (reports : ReportsWith (fun shape reports => shape.kind = kind ∧
      Judged (.ofLookup l s.assets) s.assets label kind shape.size reports) m) :
    Makes surroundings label l kind s m := by
  obtain ⟨shape, reports, ⟨same, judged⟩, run⟩ := reports
  exact ⟨shape, s.assets, reports, run s, same, judged, .nothing⟩

theorem Makes.of_size {α : Type} {m : StateM Session α} {size : α → Vec3}
    (reports : ReportsWith (fun x => Judged (.ofLookup l s.assets) s.assets label kind (size x)) m) :
    Makes surroundings label l kind s ((fun x => Shape.ofSize kind (size x)) <$> m) := by
  obtain ⟨x, reports, judged, run⟩ := reports
  exact .of_reports (.map ⟨x, reports, ⟨rfl, judged⟩, run⟩)

theorem makes_ofKind_tube (tube : IsTube kind) :
    Makes surroundings label scope.lookup kind s (ofKind surroundings scope label kind) := by
  have same : ofKind surroundings scope label kind =
      match scope.lookup.floatArray? "fromto" with
      | some ends => segment kind label ends ((scope.lookup.floatArray? "size").getD [])
      | none => .ofSize kind <$> tubeSize kind label ((scope.lookup.floatArray? "size").getD []) := by
    rcases tube with rfl | rfl <;> rfl
  rw [same]
  split
  · rename_i ends spanned
    exact .of_reports (judged_segment tube spanned)
  · rename_i loose
    exact .of_size (judged_tubeSize tube loose)

theorem makes_ofKind_mesh :
    Makes surroundings label scope.lookup .mesh s (ofKind surroundings scope label .mesh) := by
  cases given : scope.lookup.string? "mesh" with
  | some reference =>
    have fit : Data.Fits (.ofLookup scope.lookup s.assets) .mesh := by
      simp [Data.Fits, Data.ofLookup, given]
    suffices found : ∃ mesh assets, (Session.mesh surroundings reference).run s = (mesh, { s with assets }) ∧
        assets.meshes.find? reference = some mesh ∧
        Registered surroundings scope.lookup s.assets .mesh assets by
      obtain ⟨mesh, assets, found, known, registered⟩ := found
      refine ⟨{ Shape.ofSize .mesh mesh.scale with mesh := some mesh }, assets, [], ?_, rfl,
        .exact fit (.mesh given known), registered⟩
      rw [List.append_nil]
      simp only [ofKind, given]
      exact run_bind.mpr ⟨mesh, _, found, rfl⟩
    cases known : s.assets.meshes.find? reference with
    | some mesh =>
      refine ⟨mesh, s.assets, ?_, known, .nothing⟩
      simp only [Session.mesh, Assets.resolveMesh_eq, StateT.run_modifyGet, known]
      rfl
    | none =>
      refine ⟨⟨reference, surroundings.resolve reference surroundings.meshDirectory, .splat 1⟩, _, ?_, ?_,
        .mesh given known⟩
      · simp only [Session.mesh, Assets.resolveMesh_eq, StateT.run_modifyGet, known]
        rfl
      · rw [Assets.addMesh_eq, Catalog.find?_add, known, Option.none_or, if_pos rfl]
  | none =>
    have unfit : ¬ Data.Fits (.ofLookup scope.lookup s.assets) .mesh := by
      simp [Data.Fits, Data.ofLookup, given]
    simp only [ofKind, given]
    exact .of_reports (.instead ⟨rfl, .misfit unfit .mesh⟩)

theorem makes_ofKind_heightfield :
    Makes surroundings label scope.lookup .heightfield s (ofKind surroundings scope label .heightfield) := by
  -- what is registered is asked of the session, so that the runs do not report alike in all sessions
  cases found : s.assets.heightfields.find? ((scope.lookup.string? "hfield").getD "") with
  | some grid =>
    have fit : Data.Fits (.ofLookup scope.lookup s.assets) .heightfield := by
      simp [Data.Fits, Data.ofLookup, found]
    refine ⟨{ Shape.ofSize .heightfield ⟨grid.extent.radiusX, grid.extent.radiusY, grid.extent.elevation⟩ with
      heightfield := some grid }, s.assets, [], run_bind.mpr ⟨s, s, rfl, ?_⟩, rfl,
      .exact fit (.heightfield found), .nothing⟩
    simp only [found, List.append_nil]
    rfl
  | none =>
    have unfit : ¬ Data.Fits (.ofLookup scope.lookup s.assets) .heightfield := by
      simp [Data.Fits, Data.ofLookup, found]
    refine ⟨.ofSize .heightfield (.splat 1), s.assets, _, run_bind.mpr ⟨s, s, rfl, ?_⟩, rfl,
      .unresolved unfit, .nothing⟩
    simp only [found]
    rfl

theorem makes_ofKind (kind : ShapeKind) :
    Makes surroundings label scope.lookup kind s (ofKind surroundings scope label kind) := by
  cases kind with
  | plane => exact .of_size judged_planeSize
  | sphere => exact .of_size judged_sphereRadius
  | box => exact .of_size judged_boxSize
  | ellipsoid => exact .of_size judged_ellipsoidSize
  | cylinder => exact makes_ofKind_tube (.inl rfl)
  | capsule => exact makes_ofKind_tube (.inr rfl)
  | mesh => exact makes_ofKind_mesh
  | heightfield => exact makes_ofKind_heightfield

/-- Making a geom's shape reports a kind that is not known, once, and takes it for a sphere. It reports the
data once more if they do not fit the kind, and then a substitute stands in; where they fit, the size is
exactly what they say. -/
theorem ofGeom_fitted (surroundings : Surroundings) (scope : Scope) (s : Session) :
    let label := scope.element.name?.getD scope.element.kind
    let keyword := (scope.lookup.string? "type").getD "sphere"
    ∃ kind shape assets unknown further,
      (ofGeom surroundings scope).run s =
        (shape, { s with assets, diagnostics := s.diagnostics ++ (unknown ++ further) }) ∧
      (ShapeKind.ofKeyword? keyword = some kind ∧ unknown = [] ∨
        ShapeKind.ofKeyword? keyword = none ∧ kind = .sphere ∧
          unknown = [.malformedGeometry label (Misfit.unknownType keyword).message]) ∧
      (further = [] ↔ (Data.ofLookup scope.lookup s.assets).Fits kind) ∧ further.length ≤ 1 ∧
      Fitted surroundings label scope.lookup kind s.assets shape assets further := by
  intro label keyword
  suffices chosen : ∃ kind unknown, (kindOf label keyword).run s =
        (kind, { s with diagnostics := s.diagnostics ++ unknown }) ∧
      (ShapeKind.ofKeyword? keyword = some kind ∧ unknown = [] ∨
        ShapeKind.ofKeyword? keyword = none ∧ kind = .sphere ∧
          unknown = [.malformedGeometry label (Misfit.unknownType keyword).message]) by
    obtain ⟨kind, unknown, chosen, either⟩ := chosen
    obtain ⟨shape, assets, further, made, fitted⟩ := @makes_ofKind label surroundings scope
      { s with diagnostics := s.diagnostics ++ unknown } kind
    obtain ⟨noneIff, one⟩ := fitted.judged.single
    refine ⟨kind, shape, assets, unknown, further, ?_, either, noneIff, one, fitted⟩
    rw [← List.append_assoc]
    exact run_bind.mpr ⟨kind, _, chosen, made⟩
  unfold kindOf
  cases known : ShapeKind.ofKeyword? keyword with
  | some kind =>
    refine ⟨kind, [], ?_, .inl ⟨rfl, rfl⟩⟩
    rw [List.append_nil]
    rfl
  | none => exact ⟨.sphere, _, rfl, .inr ⟨rfl, rfl, rfl⟩⟩

end Articulation.Geometry
