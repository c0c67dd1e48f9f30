import Articulation.Proofs.Defaults
import Articulation.Proofs.Mjcf.Reading
import Articulation.Proofs.Mjcf.Steps
/-! The class that a body declares for its children, handed down while the tree is compiled, is as good as
a class written on every geom and joint that it reaches. -/
namespace Articulation.Mjcf

/-! ### Writing classes out -/

def takesClass (kind : String) : Bool := kind == "geom" || kind == "joint"

/-- The class for what stands below an element: a body may declare one of its own. -/
def handedDown (inherited : Option String) (tag : Tag) : Option String :=
  if tag.kind = "body" then (tag.attributes.lookup.string? "childclass").or inherited else inherited

/-- The attributes with the inherited class among them, if the element takes one and names none. -/
def withClass (inherited : Option String) (tag : Tag) : Attributes :=
  match inherited with
  | some name =>
    if takesClass tag.kind && !tag.attributes.contains "class" then
      tag.attributes.insert "class" (.string name)
    else tag.attributes
  | none => tag.attributes

def classed (inherited : Option String) (tag : Tag) : Tag :=
  ⟨tag.kind, (withClass inherited tag).erase "childclass"⟩

mutual
/-- The element with the class that reaches each geom and joint written on it, and no class declared for
children. -/
def explicit (inherited : Option String) : Element → Element
  | .node tag children =>
    .node (classed inherited tag) (explicitAll (handedDown inherited tag) children)

def explicitAll (inherited : Option String) : List Element → List Element
  | [] => []
  | e :: rest => explicit inherited e :: explicitAll inherited rest
end

theorem explicitAll_eq (inherited : Option String) (elements : List Element) :
    explicitAll inherited elements = elements.map (explicit inherited) := by
  induction elements with
  | nil => rfl
  | cons e rest ih => rw [explicitAll, ih, List.map_cons]

theorem find?_withClass (inherited : Option String) (tag : Tag) (name : String) :
    (withClass inherited tag).find? name =
      if name = "class" ∧ takesClass tag.kind = true ∧ tag.attributes.find? "class" = none then
        inherited.map AttributeValue.string
      else tag.attributes.find? name := by
  unfold withClass Attributes.contains
  cases inherited with
  | none =>
    dsimp only [Option.map_none]
    split
    · rename_i missing
      rw [missing.1, missing.2.2]
    · rfl
  | some className =>
    by_cases taken : takesClass tag.kind = true
    · cases found : tag.attributes.find? "class" with
      | none =>
        have written : (tag.attributes.insert "class" (.string className)).find? name =
            if name = "class" then some (.string className) else tag.attributes.find? name :=
          Attributes.find?_insert
            (fun entry listed same => absurd same (Attributes.not_mem_of_find?_eq_none found listed)) name
        simp [taken, written]
      | some value => simp [taken]
    · simp [taken]

section

variable (inherited : Option String) (e : Element)

theorem children_explicit :
    (explicit inherited e).children = e.children.map (explicit (handedDown inherited e.value)) := by
  cases e with
  | node tag children => exact explicitAll_eq _ _

theorem value_explicit : (explicit inherited e).value = classed inherited e.value := by
  cases e
  rfl

@[simp] theorem kind_explicit : (explicit inherited e).kind = e.kind := by
  rw [Element.kind, value_explicit]
  rfl

theorem own_explicit (name : String) :
    (explicit inherited e).own name =
      if name = "childclass" then none
      else if name = "class" ∧ takesClass e.kind = true ∧ e.own "class" = none then
        inherited.map AttributeValue.string
      else e.own name := by
  rw [Element.own, Element.attributes, value_explicit]
  exact (Attributes.find?_erase _ _ _).trans (congrArg _ (find?_withClass inherited e.value name))

theorem alike_explicit : (explicit inherited e).own.Alike e.own := by
  intro name other another
  rw [own_explicit, if_neg another, if_neg fun missing => other missing.1]

end

/-! ### Documents -/

/-- What the table says of classes and bodies: only bodies declare a class for their children, and they
have none themselves; bodies stand in the world body and in bodies, which stand nowhere else. -/
theorem class_rules : ∀ row ∈ Schema.mjcf.rules,
    (∀ a ∈ row.2.attributes, a.1 = "childclass" → row.1 = "body") ∧
    (∀ a ∈ row.2.attributes, a.1 = "class" → a.2 = .string ∧ row.1 ≠ "body") ∧
    ("body" ∈ row.2.children → row.1 = "worldbody" ∨ row.1 = "body") ∧
    ("worldbody" ∈ row.2.children → row.1 = "mujoco") ∧
    "mujoco" ∉ row.2.children := by
  decide +kernel

section

variable {e : Element} (conforms : e.Conforms Schema.mjcf)

include conforms

theorem childClass_eq_none (other : e.kind ≠ "body") : e.own "childclass" = none := by
  cases found : e.own "childclass" with
  | none => rfl
  | some value =>
    obtain ⟨row, listed, same, declared⟩ := Schema.exists_attribute (conforms.tag.type_of_find? found)
    exact absurd (same.symm.trans ((class_rules row listed).1 _ declared rfl)) other

theorem class_isString {value : AttributeValue} (found : e.own "class" = some value) :
    ∃ name, value = .string name := by
  obtain ⟨row, listed, _, declared⟩ := Schema.exists_attribute (conforms.tag.type_of_find? found)
  have type := ((class_rules row listed).2.1 _ declared rfl).1
  cases value <;> first | exact ⟨_, rfl⟩ | contradiction

end

/-- The elements that a body may stand in, at any depth. -/
def holdsBodies (kind : String) : Prop := kind = "mujoco" ∨ kind = "worldbody" ∨ kind = "body"
deriving Decidable

theorem not_holdsBodies_child {parent child : String} (allowed : Schema.mjcf.allowsChild parent child = true)
    (other : ¬ holdsBodies parent) : ¬ holdsBodies child := by
  obtain ⟨row, listed, rfl, below⟩ := Schema.exists_child allowed
  obtain ⟨_, _, body, world, root⟩ := class_rules row listed
  rintro (rfl | rfl | rfl)
  · exact root below
  · exact other (.inl (world below))
  · exact other (.inr (body below))

/-- Where no body stands there is nothing to write. -/
theorem explicit_eq_self {e : Element} (conforms : e.Conforms Schema.mjcf) (other : ¬ holdsBodies e.kind) :
    explicit none e = e := by
  induction e using Rose.induction with
  | step tag children ih =>
    have here : tag.kind ≠ "body" := fun body => other (.inr (.inr body))
    have same : classed none tag = tag :=
      congrArg (Tag.mk tag.kind) (Attributes.erase_of_find?_eq_none (childClass_eq_none conforms here))
    have below : children.map (explicit none) = children := by
      refine (List.map_congr_left fun child member => ?_).trans (List.map_id children)
      obtain ⟨allowed, inner⟩ := conforms.child member
      exact ih child member inner (not_holdsBodies_child allowed other)
    rw [explicit, same, explicitAll_eq, handedDown, if_neg here, below]

theorem conforms_classed {tag : Tag} (conforms : tag.Conforms Schema.mjcf) (inherited : Option String) :
    (classed inherited tag).Conforms Schema.mjcf := by
  have written : Tag.Conforms Schema.mjcf ⟨tag.kind, withClass inherited tag⟩ := by
    unfold withClass
    split
    · split
      · rename_i className missing
        have declared : Schema.mjcf.attributeType? tag.kind "class" = some .string := by
          rcases Bool.or_eq_true_iff.mp (Bool.and_eq_true_iff.mp missing).1 with geom | joint
          · exact eq_of_beq geom ▸ by decide +kernel
          · exact eq_of_beq joint ▸ by decide +kernel
        exact conforms.insert declared
      · exact conforms
    · exact conforms
  exact written.erase "childclass"

theorem conforms_explicit {e : Element} (conforms : e.Conforms Schema.mjcf) (inherited : Option String) :
    (explicit inherited e).Conforms Schema.mjcf := by
  induction e using Rose.induction generalizing inherited with
  | step tag children ih =>
    rw [explicit, explicitAll_eq]
    refine Element.conforms_node.mpr ⟨conforms_classed conforms.tag inherited, fun child member => ?_⟩
    obtain ⟨before, listed, rfl⟩ := List.mem_map.mp member
    obtain ⟨allowed, inner⟩ := conforms.child listed
    refine ⟨?_, ih before listed inner _⟩
    rw [show (explicit _ before).value.kind = before.kind from kind_explicit _ before]
    exact allowed

/-! ### Scopes -/

section

variable {r : Rules} {e f : Element}

theorem alike_of_class {inherited other : Option String} (kind : e.kind = f.kind)
    (own : e.own.Alike f.own) (same : (r.scope inherited e).className = (r.scope other f).className) :
    (r.scope inherited e).Alike (r.scope other f) := by
  refine ⟨kind, own, fun name first second => ?_⟩
  rw [Scope.lookup, Scope.lookup, same]
  show (e.own name).or _ = (f.own name).or _
  rw [own name first second,
    show (r.scope inherited e).element.kind = (r.scope other f).element.kind from kind]
  rfl

/-- An element that takes a class resolves with the class written as it does with the class inherited. -/
theorem alike_classed (inherited : Option String) (conforms : e.Conforms Schema.mjcf)
    (takes : takesClass e.kind = true) :
    (r.scope none (explicit inherited e)).Alike (r.scope inherited e) := by
  refine alike_of_class (kind_explicit inherited e) (alike_explicit inherited e) ?_
  show ((explicit inherited e).own.string? "class").or none = (e.own.string? "class").or inherited
  rw [Option.or_none, Lookup.string?, own_explicit, if_neg (by decide), Lookup.string?]
  cases found : e.own "class" with
  | none =>
    rw [if_pos ⟨rfl, takes, rfl⟩]
    cases inherited <;> rfl
  | some value =>
    obtain ⟨name, rfl⟩ := class_isString conforms found
    rw [if_neg fun missing => Option.some_ne_none _ missing.2.2]
    rfl

theorem alike_unclassed (inherited : Option String) (takes : takesClass e.kind = false) :
    (r.scope none (explicit inherited e)).Alike (r.scope none e) := by
  refine alike_of_class (kind_explicit inherited e) (alike_explicit inherited e) ?_
  show ((explicit inherited e).own.string? "class").or none = (e.own.string? "class").or none
  rw [Lookup.string?, own_explicit, if_neg (by decide), if_neg fun missing => ?_, Lookup.string?]
  exact absurd missing.2.1 (by simp [takes])

end

/-! ### Bodies -/

/-- No class, and no topmost block, gives a body an attribute. -/
def BodiesPlain (d : Defaults) : Prop :=
  ∀ name, (∀ className, d.classValue? className "body" name = none) ∧ d.unclassedValue? "body" name = none

theorem valuesSet_body {blocks : List Element}
    (each : ∀ block : Element, block ∈ blocks → block.kind = "default" ∧ block.Conforms Schema.mjcf)
    (name : String) : Defaults.valuesSet (blocks.flatMap Rose.children) "body" name = [] := by
  have none : (blocks.flatMap Rose.children).filter (fun e : Element => e.kind == "body") = [] := by
    refine List.filter_eq_nil_iff.mpr fun child member body => ?_
    obtain ⟨block, listed, below⟩ := List.mem_flatMap.mp member
    obtain ⟨kind, conforms⟩ := each block listed
    have allowed := (conforms.child below).1
    rw [kind, eq_of_beq body] at allowed
    exact absurd allowed (by decide +kernel)
  rw [Defaults.valuesSet, none, List.filterMap_nil]

theorem bodiesPlain_ofDocument {root : Element} (conforms : root.Conforms SchemaKind.mjcf.schema) :
    BodiesPlain (.ofDocument root) := by
  refine fun name => ⟨fun className => ?_, ?_⟩
  · rw [Defaults.classValue?_ofDocument conforms, valuesSet_body, List.getLast?_nil, ite_self]
    intro block member
    have inner := List.mem_of_mem_filter member
    obtain ⟨_, _, below⟩ := List.mem_flatMap.mp inner
    exact ⟨eq_of_beq (List.mem_filter.mp below).2, Defaults.conforms_inner conforms inner⟩
  · rw [Defaults.unclassedValue?_ofDocument conforms, valuesSet_body, List.getLast?_nil, ite_self]
    intro block member
    exact ⟨eq_of_beq (List.mem_filter.mp member).2, Defaults.conforms_outer conforms member⟩

theorem lookup_body {r : Rules} (plain : BodiesPlain r.defaults) (inherited : Option String) {e : Element}
    (kind : e.kind = "body") : (r.scope inherited e).lookup = e.own := by
  funext name
  obtain ⟨classed, unclassed⟩ := plain name
  rw [Scope.lookup]
  show (e.own name).or ((Option.bind _ fun className => r.defaults.classValue? className e.kind name).or
    (r.defaults.unclassedValue? e.kind name)) = e.own name
  rw [kind, unclassed]
  simp [classed]

theorem member_explicit {r : Rules} {surroundings : Surroundings} {inherited : Option String}
    {e : Element} (conforms : e.Conforms Schema.mjcf)
    (below : e.kind = "body" → ∀ parent, body r surroundings parent none (explicit inherited e) =
      body r surroundings parent inherited e) (b : Body) :
    member r surroundings none b (explicit inherited e) = member r surroundings inherited b e := by
  apply member_congr (kind_explicit inherited e)
  case geoms =>
    intro geom
    exact geom_congr (alike_classed inherited conforms (by rw [geom]; rfl)) surroundings
  case joints =>
    intro joint
    exact joint_congr (alike_classed inherited conforms (by rw [joint]; rfl))
  case frees =>
    intro _
    have named : (explicit inherited e).name? = e.name? :=
      (alike_explicit inherited e).string? (by decide) (by decide)
    rw [freeJoint, freeJoint, named]
  case masses =>
    intro mass name
    exact inertial_congr (alike_unclassed inherited (by rw [mass]; rfl)) name
  case bodies => exact below

section

variable {r : Rules} (surroundings : Surroundings) (plain : BodiesPlain r.defaults) {e : Element}
  (conforms : e.Conforms Schema.mjcf) (kind : e.kind = "body")

include plain conforms kind

theorem body_explicit_step (below : ∀ child : Element, child ∈ e.children → child.kind = "body" →
      ∀ parent inherited, body r surroundings parent none (explicit inherited child) =
        body r surroundings parent inherited child) (parent inherited : Option String) :
    body r surroundings parent none (explicit inherited e) = body r surroundings parent inherited e := by
  have alike := alike_explicit inherited e
  have named : (explicit inherited e).name? = e.name? := alike.string? (by decide) (by decide)
  have undeclared : (explicit inherited e).own.string? "childclass" = none := by
    rw [Lookup.string?, own_explicit, if_pos rfl, Option.bind_none]
  have declared : handedDown inherited e.value = (e.own.string? "childclass").or inherited := if_pos kind
  -- the written children inherit nothing, those of the original what is handed down to them
  have children (b : Body) :
      (e.children.map (explicit (handedDown inherited e.value))).foldlM (member r surroundings none) b =
        e.children.foldlM (member r surroundings (handedDown inherited e.value)) b := by
    rw [List.foldlM_map]
    refine foldlM_congr (fun child listed b => ?_) b
    exact member_explicit (conforms.child listed).2 (fun nested parent => below child listed nested _ _) b
  rw [body_eq, body_eq, named, undeclared, children_explicit, ← declared,
    lookup_body plain none ((kind_explicit _ _).trans kind), lookup_body plain inherited kind, alike.pose]
  simp only [Option.or_none, children]

/-- A body compiles alike with the classes written out and handed down. -/
theorem body_explicit (parent inherited : Option String) :
    body r surroundings parent none (explicit inherited e) = body r surroundings parent inherited e := by
  induction e using Rose.induction generalizing parent inherited with
  | step tag children ih =>
    refine body_explicit_step surroundings plain conforms kind (fun child member nested => ?_) _ _
    exact ih child member (conforms.child member).2 nested

end

/-! ### Documents -/

theorem name?_explicit (inherited : Option String) (e : Element) :
    (explicit inherited e).name? = e.name? :=
  (alike_explicit inherited e).string? (by decide) (by decide)

theorem declaredNames_explicit (inherited : Option String) (e : Element) :
    (explicit inherited e).declaredNames = e.declaredNames := by
  induction e using Rose.induction generalizing inherited with
  | step tag children ih =>
    rw [Element.declaredNames, Element.declaredNames, Element.descendants_eq, Element.descendants_eq,
      children_explicit, List.flatMap_map, List.filterMap_flatMap, List.filterMap_flatMap]
    refine congrArg List.flatten (List.map_congr_left fun child member => ?_)
    have below := ih child member (handedDown inherited tag)
    rw [Element.declaredNames, Element.declaredNames] at below
    rw [Rose.value_node, List.filterMap_cons, List.filterMap_cons, name?_explicit, below]

theorem child?_explicit (inherited : Option String) (e : Element) (type : String) :
    (explicit inherited e).child? type =
      (e.child? type).map (explicit (handedDown inherited e.value)) := by
  rw [Element.child?, children_explicit, List.find?_map]
  refine congrArg (Option.map _) (congrArg (List.find? · e.children) ?_)
  exact funext fun child => congrArg (· == type) (kind_explicit _ child)

theorem handedDown_other {e : Element} (kind : e.kind ≠ "body") (inherited : Option String) :
    handedDown inherited e.value = inherited :=
  if_neg kind

section

variable {root : Element} (kind : root.kind ≠ "body")

include kind

variable (conforms : root.Conforms Schema.mjcf) {type : String} (other : ¬ holdsBodies type)

include conforms other

theorem childrenOf_explicit : (explicit none root).childrenOf type = root.childrenOf type := by
  have chosen : (fun child : Element => child.kind == type) ∘ explicit none =
      fun child => child.kind == type :=
    funext fun child => congrArg (· == type) (kind_explicit none child)
  rw [Element.childrenOf, children_explicit, handedDown_other kind, List.filter_map, chosen]
  refine (List.map_congr_left fun child member => ?_).trans (List.map_id _)
  obtain ⟨below, same⟩ := List.mem_filter.mp member
  exact explicit_eq_self (conforms.child below).2 (eq_of_beq same ▸ other)

theorem child?_explicit_of_other : (explicit none root).child? type = root.child? type := by
  rw [child?_explicit, handedDown_other kind]
  cases found : root.child? type with
  | none => rfl
  | some child =>
    obtain ⟨member, same⟩ := Element.child?_eq_some found
    exact congrArg some (explicit_eq_self (conforms.child member).2 (same ▸ other))

end

theorem ofDocument_explicit {root : Element} (kind : root.kind ≠ "body")
    (conforms : root.Conforms Schema.mjcf) (settings : MjcfSettings) :
    Rules.ofDocument settings (explicit none root) = Rules.ofDocument settings root := by
  rw [Rules.ofDocument, child?_explicit_of_other kind conforms (by decide), Defaults.ofDocument,
    childrenOf_explicit kind conforms (by decide)]
  rfl

theorem model_explicit (surroundings : Surroundings) {root first : Element} (kind : root.kind ≠ "body")
    (conforms : root.Conforms Schema.mjcf) (body : first.kind = "body")
    (inner : first.Conforms Schema.mjcf) (name : String) :
    model surroundings (explicit none root) (explicit none first) name =
      model surroundings root first name := by
  have plain : BodiesPlain (Rules.ofDocument surroundings.settings.mjcf root).defaults :=
    bodiesPlain_ofDocument conforms
  have compiler : (explicit none root).child? "compiler" = root.child? "compiler" :=
    child?_explicit_of_other kind conforms (by decide)
  have assets (r : Rules) (s : Surroundings) : assets r s (explicit none root) = assets r s root := by
    rw [Mjcf.assets, childrenOf_explicit kind conforms (by decide), Mjcf.assets]
  have actuators (r : Rules) (linkage : Linkage) :
      actuators r linkage (explicit none root) = actuators r linkage root := by
    rw [Mjcf.actuators, childrenOf_explicit kind conforms (by decide), Mjcf.actuators]
  have exclusions (linkage : Linkage) :
      contactExclusions linkage (explicit none root) = contactExclusions linkage root := by
    rw [contactExclusions, childrenOf_explicit kind conforms (by decide), contactExclusions]
  simp only [model, compiler, ofDocument_explicit kind conforms, declaredNames_explicit, assets,
    body_explicit _ plain inner body, actuators, exclusions]

/-- Only the document element has a world body, and a world body is no body. -/
theorem kinds_of_world {root world : Element} (conforms : root.Conforms Schema.mjcf)
    (found : root.child? "worldbody" = some world) : root.kind ≠ "body" ∧ world.kind ≠ "body" := by
  obtain ⟨member, kind⟩ := Element.child?_eq_some found
  obtain ⟨row, listed, same, below⟩ := Schema.exists_child (conforms.child member).1
  obtain ⟨_, _, _, world, _⟩ := class_rules row listed
  rw [← same, world (kind ▸ below), kind]
  exact ⟨by decide, by decide⟩

theorem rootBody_explicit {root : Element} (conforms : root.Conforms Schema.mjcf) (name : String) :
    rootBody (explicit none root) name = (rootBody root name).map (explicit none) := by
  unfold rootBody
  rw [child?_explicit]
  cases found : root.child? "worldbody" with
  | none => rfl
  | some world =>
    obtain ⟨outer, inner⟩ := kinds_of_world conforms found
    simp only [Option.map_some, handedDown_other outer, child?_explicit, handedDown_other inner]
    cases world.child? "body" <;> rfl

theorem compile_explicit_root (surroundings : Surroundings) {root : Element}
    (conforms : root.Conforms Schema.mjcf) :
    compile surroundings .mjcf (explicit none root) = compile surroundings .mjcf root := by
  have named : documentName surroundings (explicit none root) = documentName surroundings root := by
    rw [documentName, (alike_explicit none root).string? (by decide) (by decide), documentName]
  rw [compile_mjcf, compile_mjcf, named, rootBody_explicit conforms]
  cases found : rootBody root (documentName surroundings root) with
  | error e => rfl
  | ok first =>
    obtain ⟨world, below, inside⟩ := rootBody_eq_ok.mp found
    have outer := (kinds_of_world conforms below).1
    have placed := (conforms.child (Element.child?_eq_some below).1).2
    obtain ⟨member, body⟩ := Element.child?_eq_some inside
    exact congrArg Except.ok (model_explicit surroundings outer conforms body (placed.child member).2 _)

/-- Threading the inherited class through a compilation and writing it into the tree beforehand come to
the same model or to the same error. The tree with the classes written out is one that checked writes can
build. -/
theorem compile_explicit {t : ElementTree} (made : ElementTree.Made .mjcf t) (surroundings : Surroundings) :
    ∃ u, ElementTree.ofElement? t.schema (explicit none t.root) = .ok u ∧
      u.root = explicit none t.root ∧
      compile surroundings u.schema.kind u.root = compile surroundings t.schema.kind t.root := by
  have conforms : t.root.Conforms Schema.mjcf := made.root_conforms
  have accepted := ElementTree.ofElement?_of_conforms (conforms_explicit conforms none)
  have same := ElementTree.root_ofElement Schema.mjcf (explicit none t.root)
  rw [show t.schema = Schema.mjcf from made.schema_eq]
  refine ⟨_, accepted, same, ?_⟩
  rw [same]
  exact compile_explicit_root surroundings conforms

/-- A document with bodies nested in bodies, where classes are declared for children, overridden and named
by an element itself. -/
def nestedBodiesText : String :=
  "<mujoco><worldbody><body name='a' childclass='limb'><geom name='g'/><body name='b'><joint name='j'/>"
    ++ "<body name='c' childclass='hand'><geom name='h'/><geom name='k' class='limb'/></body></body></body>"
    ++ "</worldbody></mujoco>"

def element (kind : String) (attributes : List (String × String)) (children : List Element) : Element :=
  .node ⟨kind, .ofList (attributes.map fun a => (a.1, .string a.2))⟩ children

def nestedBodies : ElementTree :=
  .ofElement Schema.mjcf (element "mujoco" [] [element "worldbody" []
    [element "body" [("name", "a"), ("childclass", "limb")] [element "geom" [("name", "g")] [],
      element "body" [("name", "b")] [element "joint" [("name", "j")] [],
        element "body" [("name", "c"), ("childclass", "hand")] [element "geom" [("name", "h")] [],
          element "geom" [("name", "k"), ("class", "limb")] []]]]]])

theorem compile_explicit_nested :
    ElementTree.read Schema.mjcf nestedBodiesText = .ok nestedBodies ∧
    explicit none nestedBodies.root = element "mujoco" [] [element "worldbody" []
      [element "body" [("name", "a")] [element "geom" [("name", "g"), ("class", "limb")] [],
        element "body" [("name", "b")] [element "joint" [("name", "j"), ("class", "limb")] [],
          element "body" [("name", "c")] [element "geom" [("name", "h"), ("class", "hand")] [],
            element "geom" [("name", "k"), ("class", "limb")] []]]]]] ∧
    ∀ surroundings, ∃ u, ElementTree.ofElement? Schema.mjcf (explicit none nestedBodies.root) = .ok u ∧
      u.root = explicit none nestedBodies.root ∧
      compile surroundings u.schema.kind u.root =
        compile surroundings .mjcf nestedBodies.root := by
  have read : ElementTree.read SchemaKind.mjcf.schema nestedBodiesText = .ok nestedBodies := by
    decide +kernel
  exact ⟨read, by rfl, compile_explicit (.read read)⟩

end Articulation.Mjcf
