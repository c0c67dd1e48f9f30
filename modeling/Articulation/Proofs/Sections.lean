import Articulation.Proofs.Element.Layout
import Articulation.Proofs.NameMap
import Articulation.Load
/-! Documents whose sections come in another order. A compilation reads the children of the document
element type by type, so only their order among those of the same type matters. All names in a document
are declared together, whatever their order. -/
namespace Articulation

namespace Element

variable {e f : Element}

/-- Children that agree type by type up to their order agree up to their order. -/
theorem perm_of_childrenOf (sections : ∀ kind, (e.childrenOf kind).Perm (f.childrenOf kind)) :
    e.children.Perm f.children := by
  classical
  refine List.perm_iff_count.mpr fun (child : Element) => ?_
  have counted (g : Element) : g.children.count child = (g.childrenOf child.kind).count child := by
    rw [childrenOf, List.count_filter]
    exact beq_self_eq_true child.kind
  rw [counted, counted, (sections child.kind).count_eq]

theorem names_of_perm (perm : e.children.Perm f.children) :
    e.declaredNames.Perm f.declaredNames := by
  rw [declaredNames, declaredNames, descendants_eq, descendants_eq]
  exact (perm.flatMap_right _).filterMap _

/-- The same element but for the order of its children: those of one type keep their order, and may be
interleaved with the others in any way. -/
structure Rearranged (e f : Element) : Prop where
  value : e.value = f.value
  sections : ∀ kind, e.childrenOf kind = f.childrenOf kind

namespace Rearranged

/-- Neighbours of different types may change places. -/
theorem swap (tag : Tag) (before after : List Element) {a b : Element} (different : a.kind ≠ b.kind) :
    Rearranged (.node tag (before ++ a :: b :: after)) (.node tag (before ++ b :: a :: after)) := by
  refine ⟨rfl, fun kind => ?_⟩
  rw [childrenOf, childrenOf, Rose.children_node, Rose.children_node, List.filter_append, List.filter_append]
  by_cases first : a.kind = kind
  · have second : b.kind ≠ kind := fun second => different (first.trans second.symm)
    simp [first, second]
  · simp [List.filter_cons, first]

variable (rearranged : Rearranged e f)

include rearranged

theorem perm : e.children.Perm f.children :=
  perm_of_childrenOf fun kind => .of_eq (rearranged.sections kind)

theorem own : e.own = f.own := congrArg (fun tag : Tag => tag.attributes.lookup) rearranged.value

theorem child? (kind : String) : e.child? kind = f.child? kind := by
  have first (g : Element) : g.child? kind = (g.childrenOf kind).head? := (List.head?_filter ..).symm
  rw [first, first, rearranged.sections]

theorem names : e.declaredNames.Perm f.declaredNames :=
  names_of_perm rearranged.perm

theorem defaults : Defaults.ofDocument e = Defaults.ofDocument f := by
  rw [Defaults.ofDocument, Defaults.ofDocument, rearranged.sections]

end Rearranged

end Element

/-! ### Declared names -/

namespace Session

theorem find?_declared (names : List String) (m : NameMap Unit) (key : String) :
    (names.foldl (fun m name => m.insert name ()) m).find? key =
      if key ∈ names then some () else m.find? key := by
  induction names generalizing m with
  | nil => rfl
  | cons name rest ih =>
    rw [List.foldl_cons, ih, NameMap.find?_insert]
    by_cases later : key ∈ rest
    · simp [later]
    · by_cases here : key = name <;> simp [later, here]

theorem ascending_declared (names : List String) {m : NameMap Unit} (ascending : m.Ascending) :
    (names.foldl (fun m name => m.insert name ()) m).Ascending :=
  List.foldlRecOn names _ ascending fun _ ascending name _ => ascending.insert name ()

/-- What is declared does not depend on the order of the names. -/
theorem declare_perm {names others : List String} (perm : names.Perm others) :
    (declare names).run .start = (declare others).run .start := by
  have same : names.foldl (fun m name => m.insert name ()) (start.declared) =
      others.foldl (fun m name => m.insert name ()) start.declared := by
    have empty := NameMap.ascending_empty (α := Unit)
    refine NameMap.Ascending.ext (ascending_declared names empty) (ascending_declared others empty) ?_
    intro key
    simp only [find?_declared, perm.mem_iff]
  exact congrArg (fun declared => ((), { start with declared })) same

end Session

/-! ### Compilation -/

namespace Mjcf

variable {e f : Element} (rearranged : e.Rearranged f)

include rearranged

theorem rules_rearranged (settings : MjcfSettings) : Rules.ofDocument settings e = Rules.ofDocument settings f := by
  rw [Rules.ofDocument, Rules.ofDocument, rearranged.defaults, rearranged.child?]

theorem model_rearranged (surroundings : Surroundings) (first : Element) (name : String) :
    model surroundings e first name = model surroundings f first name := by
  have declared := Session.declare_perm rearranged.names
  unfold model
  simp only [rules_rearranged rearranged, rearranged.child?, assets, actuators, contactExclusions,
    rearranged.sections, StateT.run_bind, declared]

theorem compile_rearranged (surroundings : Surroundings) (kind : SchemaKind) :
    compile surroundings kind e = compile surroundings kind f := by
  unfold compile
  simp only [rearranged.own, rootBody, rearranged.child?, model_rearranged rearranged]

end Mjcf

namespace Urdf

variable {e f : Element} (rearranged : e.Rearranged f)

include rearranged

theorem parts_rearranged (surroundings : Surroundings) :
    (parts surroundings e).run .start = (parts surroundings f).run .start := by
  have declared := Session.declare_perm rearranged.names
  unfold parts
  simp only [rearranged.sections, StateT.run_bind, declared]

theorem compile_rearranged (surroundings : Surroundings) (kind : SchemaKind) :
    compile surroundings kind e = compile surroundings kind f := by
  unfold compile
  simp only [rearranged.own, parts_rearranged rearranged]

end Urdf

theorem compileElement_rearranged {e f : Element} (rearranged : e.Rearranged f)
    (surroundings : Surroundings) (kind : SchemaKind) :
    compileElement surroundings kind e = compileElement surroundings kind f := by
  cases kind with
  | mjcf => exact Mjcf.compile_rearranged rearranged surroundings .mjcf
  | urdf => exact Urdf.compile_rearranged rearranged surroundings .urdf

/-- Trees of one schema whose root elements differ only in how sections of different types are interleaved
compile to the same model, with the same diagnostics in the same order, or fail with the same error. -/
theorem loadTree_rearranged {t u : ElementTree} (schema : t.schema = u.schema)
    (rearranged : t.root.Rearranged u.root) (settings : Settings) :
    loadTree t settings = loadTree u settings ∧
      ∀ directory, loadTreeIn t directory settings = loadTreeIn u directory settings := by
  have compiled (surroundings : Surroundings) : compileTree surroundings t = compileTree surroundings u := by
    rw [compileTree, compileTree, schema, compileElement_rearranged rearranged]
  exact ⟨compiled _, fun directory => compiled _⟩

/-- A material whose name a generated one could take. -/
def palette : Element := .node ⟨"asset", .empty⟩ [.node ⟨"material", .ofList [("name", .string "geom_0")]⟩ []]

/-- A body with a geom that has no name. -/
def unnamedWorld : Element := .node ⟨"worldbody", .empty⟩ [.node ⟨"body", .empty⟩ [.node ⟨"geom", .empty⟩ []]]

def documentOf (sections : List Element) : ElementTree :=
  .ofElement Schema.mjcf (.node ⟨"mujoco", .empty⟩ sections)

def drawableNames (robot : Robot) : List String := robot.linkage.root.value.drawables.map Drawable.name

/-- The name of the material is avoided, though it is declared behind the geom. -/
theorem loadTree_rearranged_palette :
    loadTree (documentOf [palette, unnamedWorld]) .standard =
        loadTree (documentOf [unnamedWorld, palette]) .standard ∧
      (loadTree (documentOf [unnamedWorld, palette]) .standard).map drawableNames = .ok ["geom_1"] := by
  have rearranged : (documentOf [palette, unnamedWorld]).root.Rearranged
      (documentOf [unnamedWorld, palette]).root := by
    have first := ElementTree.root_ofElement Schema.mjcf (.node ⟨"mujoco", .empty⟩ [palette, unnamedWorld])
    have second := ElementTree.root_ofElement Schema.mjcf (.node ⟨"mujoco", .empty⟩ [unnamedWorld, palette])
    rw [documentOf, documentOf, first, second]
    exact .swap ⟨"mujoco", .empty⟩ [] [] (by decide)
  have schema : (documentOf [palette, unnamedWorld]).schema = (documentOf [unnamedWorld, palette]).schema := rfl
  exact ⟨(loadTree_rearranged schema rearranged .standard).1, by decide +kernel⟩

end Articulation
