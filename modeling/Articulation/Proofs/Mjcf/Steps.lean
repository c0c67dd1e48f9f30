import Articulation.Mjcf
import Articulation.Proofs.Traversal
/-! A compilation step by step. A document needs a root body and nothing else; the children of a body
element are compiled one after another, each into the body that those before it left. -/
namespace Articulation.Mjcf

variable {r : Rules} {surroundings : Surroundings} {inherited : Option String} {b : Body} {e : Element}

/-- What one child element makes of a body. -/
def member (r : Rules) (surroundings : Surroundings) (inherited : Option String) (b : Body)
    (e : Element) : StateM Session Body :=
  members r surroundings inherited b [e]

theorem members_eq_foldlM (children : List Element) :
    members r surroundings inherited b children =
      children.foldlM (member r surroundings inherited) b := by
  induction children generalizing b with
  | nil => rw [members, List.foldlM_nil]
  | cons e rest ih =>
    rw [List.foldlM_cons, members, member, members]
    simp only [members, bind_pure, ih]
    split <;> simp only [bind_assoc, pure_bind]

/-- A body is named, joined to its parent, and then given what its children make. -/
theorem body_eq (parent : Option String) :
    body r surroundings parent inherited e = (do
      let name ← Session.nameOr e.name? "body"
      if let some parent := parent then Session.exclude parent name
      let link := { Link.ofName name with pose := (r.scope inherited e).lookup.pose r.angle }
      e.children.foldlM (member r surroundings ((e.own.string? "childclass").or inherited))
        (.node link [])) := by
  cases e with
  | node tag children =>
    simp only [body, members_eq_foldlM]
    rfl

theorem member_geom (kind : e.kind = "geom") :
    member r surroundings inherited b e = (do
      let sides ← geom r surroundings inherited e
      return .node { b.value with
        colliders := b.value.colliders ++ [sides.1]
        drawables := b.value.drawables ++ [sides.2] } b.children) := by
  simp only [member, members, kind, bind_pure]

theorem member_joint (kind : e.kind = "joint") :
    member r surroundings inherited b e = (do
      let joint ← joint r inherited e
      return .node { b.value with joints := b.value.joints ++ [joint] } b.children) := by
  simp only [member, members, kind, bind_pure]

theorem member_freeJoint (kind : e.kind = "freejoint") :
    member r surroundings inherited b e = (do
      let joint ← freeJoint e
      return .node { b.value with joints := b.value.joints ++ [joint] } b.children) := by
  simp only [member, members, kind, bind_pure]

theorem member_inertial (kind : e.kind = "inertial") :
    member r surroundings inherited b e = (do
      let inertial ← inertial r b.value.name e
      return .node { b.value with inertial := some inertial } b.children) := by
  simp only [member, members, kind, bind_pure]

theorem member_body (kind : e.kind = "body") :
    member r surroundings inherited b e = (do
      let child ← body r surroundings (some b.value.name) inherited e
      return .node b.value (b.children ++ [child])) := by
  simp only [member, members, kind, bind_pure]

theorem member_other (geom : e.kind ≠ "geom") (joint : e.kind ≠ "joint")
    (free : e.kind ≠ "freejoint") (inertial : e.kind ≠ "inertial") (body : e.kind ≠ "body") :
    member r surroundings inherited b e = pure b := by
  simp only [member, members, bind_pure]

/-- All that one child element can make of a body in a run, by its type. -/
inductive Step (r : Rules) (surroundings : Surroundings) (inherited : Option String) (b : Body) (e : Element)
    (s : Session) : Body → Session → Prop where
  | geom {sides t} : e.kind = "geom" → (geom r surroundings inherited e).run s = (sides, t) →
      Step r surroundings inherited b e s (.node { b.value with
        colliders := b.value.colliders ++ [sides.1]
        drawables := b.value.drawables ++ [sides.2] } b.children) t
  | joint {j t} : e.kind = "joint" → (joint r inherited e).run s = (j, t) →
      Step r surroundings inherited b e s (.node { b.value with joints := b.value.joints ++ [j] } b.children) t
  | freeJoint {j t} : e.kind = "freejoint" → (freeJoint e).run s = (j, t) →
      Step r surroundings inherited b e s (.node { b.value with joints := b.value.joints ++ [j] } b.children) t
  | inertial {i t} : e.kind = "inertial" → (inertial r b.value.name e).run s = (i, t) →
      Step r surroundings inherited b e s (.node { b.value with inertial := some i } b.children) t
  | body {child t} : e.kind = "body" →
      (body r surroundings (some b.value.name) inherited e).run s = (child, t) →
      Step r surroundings inherited b e s (.node b.value (b.children ++ [child])) t
  | other : e.kind ≠ "geom" → e.kind ≠ "joint" → e.kind ≠ "freejoint" → e.kind ≠ "inertial" →
      e.kind ≠ "body" → Step r surroundings inherited b e s b s

theorem run_member {s t : Session} {built : Body}
    (run : (member r surroundings inherited b e).run s = (built, t)) :
    Step r surroundings inherited b e s built t := by
  by_cases geom : e.kind = "geom"
  · rw [member_geom geom] at run
    obtain ⟨sides, u, made, run⟩ := run_bind.mp run
    obtain ⟨rfl, rfl⟩ := run_pure.mp run
    exact .geom geom made
  by_cases joint : e.kind = "joint"
  · rw [member_joint joint] at run
    obtain ⟨j, u, made, run⟩ := run_bind.mp run
    obtain ⟨rfl, rfl⟩ := run_pure.mp run
    exact .joint joint made
  by_cases free : e.kind = "freejoint"
  · rw [member_freeJoint free] at run
    obtain ⟨j, u, made, run⟩ := run_bind.mp run
    obtain ⟨rfl, rfl⟩ := run_pure.mp run
    exact .freeJoint free made
  by_cases mass : e.kind = "inertial"
  · rw [member_inertial mass] at run
    obtain ⟨inertial, u, made, run⟩ := run_bind.mp run
    obtain ⟨rfl, rfl⟩ := run_pure.mp run
    exact .inertial mass made
  by_cases nested : e.kind = "body"
  · rw [member_body nested] at run
    obtain ⟨child, u, made, run⟩ := run_bind.mp run
    obtain ⟨rfl, rfl⟩ := run_pure.mp run
    exact .body nested made
  · rw [member_other geom joint free mass nested] at run
    obtain ⟨rfl, rfl⟩ := run_pure.mp run
    exact .other geom joint free mass nested

/-- Child elements of one type make the same of a body if the part that they stand for is the same. -/
theorem member_congr {q : Rules} {elsewhere : Surroundings} {other : Option String} {f : Element}
    (kind : f.kind = e.kind)
    (geoms : e.kind = "geom" → geom q elsewhere other f = geom r surroundings inherited e)
    (joints : e.kind = "joint" → joint q other f = joint r inherited e)
    (frees : e.kind = "freejoint" → freeJoint f = freeJoint e)
    (masses : e.kind = "inertial" → ∀ name, inertial q name f = inertial r name e)
    (bodies : e.kind = "body" → ∀ parent, body q elsewhere parent other f =
      body r surroundings parent inherited e) (b : Body) :
    member q elsewhere other b f = member r surroundings inherited b e := by
  by_cases geom : e.kind = "geom"
  · rw [member_geom (kind.trans geom), member_geom geom, geoms geom]
  by_cases joint : e.kind = "joint"
  · rw [member_joint (kind.trans joint), member_joint joint, joints joint]
  by_cases free : e.kind = "freejoint"
  · rw [member_freeJoint (kind.trans free), member_freeJoint free, frees free]
  by_cases mass : e.kind = "inertial"
  · rw [member_inertial (kind.trans mass), member_inertial mass, masses mass]
  by_cases nested : e.kind = "body"
  · rw [member_body (kind.trans nested), member_body nested, bodies nested]
  · rw [member_other geom joint free mass nested, member_other] <;> rwa [kind]

/-! ### Documents -/

theorem rootBody_eq_ok {root first : Element} {name : String} :
    rootBody root name = .ok first ↔
      ∃ world, root.child? "worldbody" = some world ∧ world.child? "body" = some first := by
  unfold rootBody
  split
  · rename_i missing
    simp [missing]
  · rename_i world found
    split
    · rename_i missing
      simp [found, missing]
    · rename_i e below
      simp [found, below]

def documentName (surroundings : Surroundings) (root : Element) : String :=
  surroundings.modelName (root.own.string? "model") "mjcf"

/-- The surroundings with the mesh directory that the document names. -/
def located (surroundings : Surroundings) (root : Element) : Surroundings :=
  { surroundings with
    meshDirectory := ((root.child? "compiler").bind fun e => e.own.string? "meshdir").or
      surroundings.settings.mjcf.meshDirectory }

def documentRules (surroundings : Surroundings) (root : Element) : Rules :=
  .ofDocument surroundings.settings.mjcf root

def documentLinkage (surroundings : Surroundings) (root : Element) (written : Body) : Linkage :=
  .ofBody (resolved (documentRules surroundings root).coordinate written)

/-- The steps of a compilation: names are declared before assets are read, and bodies are compiled before
what refers to them. -/
theorem exists_model (surroundings : Surroundings) (root first : Element) (name : String) :
    ∃ (written : Body) (drives : List Actuator) (named prepared built driven last : Session),
      (Session.declare root.declaredNames).run .start = ((), named) ∧
      (assets (documentRules surroundings root) (located surroundings root) root).run named =
        ((), prepared) ∧
      (body (documentRules surroundings root) (located surroundings root) none none first).run prepared =
        (written, built) ∧
      (actuators (documentRules surroundings root) (documentLinkage surroundings root written) root).run
        built = (drives, driven) ∧
      (contactExclusions (documentLinkage surroundings root written) root).run driven = ((), last) ∧
      model surroundings root first name =
        last.finish name (documentLinkage surroundings root written) drives :=
  ⟨_, _, _, _, _, _, _, rfl, rfl, rfl, rfl, rfl, rfl⟩

theorem compile_mjcf (surroundings : Surroundings) (root : Element) :
    compile surroundings .mjcf root =
      (rootBody root (documentName surroundings root)).map fun first =>
        model surroundings root first (documentName surroundings root) := by
  unfold compile documentName
  dsimp only
  cases rootBody root (surroundings.modelName (root.own.string? "model") "mjcf") <;> rfl

end Articulation.Mjcf
