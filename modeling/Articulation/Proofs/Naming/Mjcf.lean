import Articulation.Proofs.Mjcf.Outcome
import Articulation.Proofs.Naming.Labels
import Articulation.Proofs.Naming.Parts
/-! The names in an MJCF document. Its bodies are named for its body elements in pre-order, since a body takes
its name before those in it. What else its robot holds is declared, or has a number after another stem. -/
namespace Articulation.Mjcf

open Session (Numbered Spares indexedName)

variable {r : Rules} {surroundings : Surroundings} {inherited : Option String} {b : Body} {e : Element}
  {declared : List String} {numbers : List Nat} {s t : Session}

/-! ### Bodies -/

/-- The body elements in a body element, in pre-order. -/
def bodyElements (inherited : Option String) (e : Element) : List Element :=
  (bodyTree inherited e).preorder.map Prod.snd

/-- The names of bodies in pre-order. -/
def bodyNames (b : Body) : List String := b.preorder.map Link.name

theorem bodyElements_eq (inherited : Option String) (e : Element) :
    bodyElements inherited e =
      e :: (e.children.filter isBody).flatMap (bodyElements (handedDown inherited e.value)) := by
  cases e with
  | node tag children =>
    rw [bodyElements, bodyTree, Rose.preorder_eq, List.map_cons, List.map_flatMap, Rose.children_node,
      bodyTrees_eq, List.flatMap_map]
    rfl

theorem bodyNames_eq (b : Body) : bodyNames b = b.name :: b.children.flatMap bodyNames := by
  rw [bodyNames, Rose.preorder_eq, List.map_cons, List.map_flatMap]
  rfl

/-- One child element names the bodies in it, if it is a body, and none otherwise. -/
theorem member_named {built : Body}
    (nested : e.kind = "body" → ∀ {parent numbers s t child}, Numbered declared "body" numbers s →
      (body r surroundings parent inherited e).run s = (child, t) →
      NamedFor declared "body" numbers (bodyElements inherited e) (bodyNames child) t)
    (numbered : Numbered declared "body" numbers s)
    (run : (member r surroundings inherited b e).run s = (built, t)) :
    ∃ below, built.name = b.name ∧ built.children = b.children ++ below ∧
      NamedFor declared "body" numbers (([e].filter isBody).flatMap (bodyElements inherited))
        (below.flatMap bodyNames) t := by
  have left (kind : e.kind ≠ "body") (same : Session.SameNumber "body" s t) :
      NamedFor declared "body" numbers (([e].filter isBody).flatMap (bodyElements inherited)) [] t := by
    rw [List.filter_cons_of_neg (by simp [isBody, kind])]
    exact NamedFor.of_same numbered same
  cases run_member run with
  | geom kind made =>
    exact ⟨[], rfl, (List.append_nil _).symm,
      left (by simp [kind]) ((spares_geom (by decide) r inherited e).run made)⟩
  | joint kind made =>
    exact ⟨[], rfl, (List.append_nil _).symm,
      left (by simp [kind]) ((spares_joint (by decide) r inherited e).run made)⟩
  | freeJoint kind made =>
    exact ⟨[], rfl, (List.append_nil _).symm,
      left (by simp [kind]) ((spares_freeJoint (by decide) e).run made)⟩
  | inertial kind made =>
    exact ⟨[], rfl, (List.append_nil _).symm,
      left (by simp [kind]) ((Spares.of_onlyReports (onlyReports_inertial _ _ _)).run made)⟩
  | @body child _ kind made =>
    refine ⟨[child], rfl, rfl, ?_⟩
    have taken : isBody e = true := beq_iff_eq.mpr kind
    rw [List.filter_cons_of_pos taken, List.filter_nil, List.flatMap_singleton, List.flatMap_singleton]
    exact nested kind numbered made
  | other _ _ _ _ kind => exact ⟨[], rfl, (List.append_nil _).symm, left kind (.refl _)⟩

theorem members_named {children : List Element} {built : Body}
    (each : ∀ e : Element, e ∈ children → e.kind = "body" → ∀ {parent numbers s t child},
      Numbered declared "body" numbers s → (body r surroundings parent inherited e).run s = (child, t) →
      NamedFor declared "body" numbers (bodyElements inherited e) (bodyNames child) t)
    (numbered : Numbered declared "body" numbers s)
    (run : (children.foldlM (member r surroundings inherited) b).run s = (built, t)) :
    ∃ below, built.name = b.name ∧ built.children = b.children ++ below ∧
      NamedFor declared "body" numbers ((children.filter isBody).flatMap (bodyElements inherited))
        (below.flatMap bodyNames) t := by
  induction children generalizing b s numbers with
  | nil =>
    obtain ⟨rfl, rfl⟩ := run_pure.mp run
    exact ⟨[], rfl, (List.append_nil _).symm, NamedFor.of_same numbered (.refl _)⟩
  | cons e rest ih =>
    rw [List.foldlM_cons] at run
    obtain ⟨next, u, first, run⟩ := run_bind.mp run
    obtain ⟨here, later⟩ := List.forall_mem_cons.mp each
    obtain ⟨child, name, children, added, labels, numbered⟩ := member_named here numbered first
    obtain ⟨below, same, also, named⟩ := ih later numbered run
    refine ⟨child ++ below, same.trans name, by rw [also, children, List.append_assoc], ?_⟩
    rw [← List.singleton_append, List.filter_append, List.flatMap_append, List.flatMap_append]
    exact .append labels named

/-- The bodies that a body element compiles to are named for the body elements in it. -/
theorem body_named {parent : Option String} (kind : e.kind = "body")
    (numbered : Numbered declared "body" numbers s)
    (run : (body r surroundings parent inherited e).run s = (b, t)) :
    NamedFor declared "body" numbers (bodyElements inherited e) (bodyNames b) t := by
  induction e using Rose.induction generalizing parent inherited numbers s t b with
  | step tag children ih =>
    have handed : handedDown inherited tag = _ := if_pos kind
    rw [body_eq, Element.own, Element.attributes, Rose.value_node, ← handed] at run
    obtain ⟨name, u, named, run⟩ := run_bind.mp run
    obtain ⟨added, labels, numbered⟩ := Labels.of_nameOr numbered named
    -- the contact with the parent, if there is one, draws no name
    have built : ∃ v, Numbered declared "body" (numbers ++ added) v ∧ ∃ pose,
        (children.foldlM (member r surroundings (handedDown inherited tag))
          (.node { Link.ofName name with pose } [])).run v = (b, t) := by
      cases parent with
      | none => exact ⟨u, numbered, _, run⟩
      | some parent =>
        obtain ⟨_, v, excluded, run⟩ := run_bind.mp run
        exact ⟨v, numbered.same ((Spares.exclude _ _).run excluded), _, run⟩
    obtain ⟨v, numbered, pose, run⟩ := built
    obtain ⟨below, same, also, named⟩ := members_named (fun e member kind => ih e member kind) numbered run
    rw [bodyElements_eq, bodyNames_eq, same, also]
    exact .append labels named

/-! ### Other names -/

theorem foreign_joint {j : Joint} (declares : Declares declared e) (made : IsJointOf r inherited e j) :
    Foreign declared "body" j.name := by
  obtain ⟨s, same⟩ := made.made
  cases run : (jointOf r inherited e).run s with
  | mk other t =>
    rw [run] at same
    rw [show j.name = other.name from (congrArg Joint.name same).symm]
    unfold jointOf at run
    split at run
    · obtain ⟨name, u, named, run⟩ := run_bind.mp run
      obtain ⟨rfl, rfl⟩ := run_pure.mp run
      exact foreign_nameOr declares (by decide) named
    · obtain ⟨name, u, named, run⟩ := run_bind.mp run
      obtain ⟨rfl, rfl⟩ := run_pure.mp run
      exact foreign_nameOr declares (by decide) named

theorem foreign_geom {sides : Collider × Drawable} (declares : Declares declared e)
    (run : (geom r surroundings inherited e).run s = (sides, t)) : Foreign declared "body" sides.1.name := by
  obtain ⟨shape, u, _, run⟩ := run_bind.mp run
  obtain ⟨name, v, named, run⟩ := run_bind.mp run
  obtain ⟨material, w, _, run⟩ := run_bind.mp run
  obtain ⟨rfl, rfl⟩ := run_pure.mp run
  exact foreign_nameOr declares (by decide) named

theorem foreign_collider {c : Collider} (declares : Declares declared e)
    (made : IsColliderOf r surroundings inherited e c) : Foreign declared "body" c.name := by
  obtain ⟨s, same⟩ := made.made
  rw [show c.name = _ from (congrArg Collider.name same).symm]
  exact foreign_geom declares rfl

theorem foreign_drawable {d : Drawable} (declares : Declares declared e)
    (made : IsDrawableOf r surroundings inherited e d) : Foreign declared "body" d.name := by
  obtain ⟨s, same⟩ := made.made
  have sides := (run_geom (s := s) (t := ((geom r surroundings inherited e).run s).2) rfl).2.name
  rw [show d.name = _ from (congrArg Drawable.name same).symm]
  exact sides ▸ foreign_geom declares rfl

/-- What stands on a body is named for elements in its element. -/
theorem bears_foreign {origin : Option String × Element} {link : Link}
    (declares : ∀ e ∈ origin.2.children, Declares declared e)
    (same : IsLinkOf r surroundings origin link) : link.Bears (Foreign declared "body") := by
  constructor
  · intro j listed
    obtain ⟨e, member, made⟩ := exists_of_forall₂ same.holds.joints.flip listed
    exact foreign_joint (declares e (List.mem_of_mem_filter member)) made
  · intro c listed
    obtain ⟨e, member, made⟩ := exists_of_forall₂ same.holds.colliders.flip listed
    exact foreign_collider (declares e (List.mem_of_mem_filter member)) made
  · intro d listed
    obtain ⟨e, member, made⟩ := exists_of_forall₂ same.holds.drawables.flip listed
    exact foreign_drawable (declares e (List.mem_of_mem_filter member)) made

/-- The texts by which actuators refer to joints. -/
def jointReferences (r : Rules) (root : Element) : List String :=
  (drives root).filterMap fun e => (r.scope none e).lookup.string? "joint"

theorem run_actuator_foreign {linkage : Linkage} {kind : ActuatorKind} {root : Element} {a : Actuator}
    (listed : e ∈ drives root) (declares : Declares declared e)
    (run : (actuator r linkage kind e).run s = (a, t)) :
    Foreign declared "body" a.name ∨ a.name ∈ jointReferences r root := by
  obtain ⟨name, u, named, run⟩ := run_bind.mp run
  obtain ⟨joint, v, _, run⟩ := run_bind.mp run
  obtain ⟨rfl, rfl⟩ := run_pure.mp run
  show Foreign declared "body" name ∨ name ∈ jointReferences r root
  cases own : e.name? with
  | some label =>
    rw [own, Option.some_or] at named
    exact .inl (foreign_nameOr (fun other same => declares other (own.trans same)) (by decide) named)
  | none =>
    rw [own, Option.none_or] at named
    cases refers : (r.scope none e).lookup.string? "joint" with
    | some reference =>
      rw [refers] at named
      obtain ⟨rfl, _⟩ := run_pure.mp named
      exact .inr (List.mem_filterMap.mpr ⟨e, listed, refers⟩)
    | none =>
      rw [refers] at named
      refine .inl (foreign_nameOr ?_ (by decide) named)
      exact fun _ same => (nomatch same)

/-! ### Elements below a root -/

theorem mem_subtrees_of_bodyElements (inherited : Option String) {x : Element}
    (member : x ∈ bodyElements inherited e) : x ∈ e.subtrees := by
  induction e using Rose.induction generalizing inherited with
  | step tag children ih =>
    rw [bodyElements_eq] at member
    rcases List.mem_cons.mp member with rfl | below
    · exact Rose.self_mem_subtrees _
    · obtain ⟨child, listed, inside⟩ := List.mem_flatMap.mp below
      have hanging := List.mem_of_mem_filter listed
      exact Rose.mem_subtrees.mpr (.inr ⟨child, hanging, ih child hanging _ inside⟩)

/-! ### Documents -/

theorem mem_descendants_of_drives {root : Element} (listed : e ∈ drives root) : e ∈ root.descendants := by
  obtain ⟨block, member, below⟩ := List.mem_flatMap.mp listed
  exact mem_descendants (List.mem_of_mem_filter member) (Rose.child_mem_subtrees below)

theorem bodyNames_documentLinkage (surroundings : Surroundings) (root : Element) (written : Body) :
    (documentLinkage surroundings root written).bodies.map Body.name = bodyNames written := by
  have moved := (reframed_documentLinkage surroundings root written).preorder
  have names := map_eq_of_forall₂ (moved.imp fun _ _ reframed => reframed.name.symm)
  rw [bodyNames, names, Linkage.bodies, Body.bodies_eq, Rose.preorder, List.map_map]
  rfl

theorem bears_documentLinkage {elsewhere : Surroundings} {root first : Element} {written : Body}
    (same : Rose.Matches (IsLinkOf r elsewhere) (bodyTree none first) written)
    (inner : ∀ x : Element, x ∈ first.subtrees → Declares declared x) :
    ∀ body ∈ (documentLinkage surroundings root written).bodies,
      body.link.Bears (Foreign declared "body") := by
  refine (reframed_documentLinkage surroundings root written).bears fun link listed => ?_
  obtain ⟨origin, placed, linked⟩ := exists_of_forall₂ same.preorder.flip listed
  have below := mem_subtrees_of_bodyElements none (List.mem_map_of_mem placed)
  refine bears_foreign (fun e child => ?_) linked
  exact inner e (Rose.subtrees_trans (Rose.child_mem_subtrees child) below)

/-- The bodies of a document are named for its body elements, and their generated names are the names of
nothing else. -/
theorem model_named (surroundings : Surroundings) {root world first : Element} (name : String)
    (below : root.child? "worldbody" = some world) (inside : world.child? "body" = some first) :
    (model surroundings root first name).FreshlyNamed root.declaredNames
      (jointReferences (documentRules surroundings root) root) "body" (bodyElements none first)
      (model surroundings root first name).bodyNames := by
  obtain ⟨written, made, named, prepared, built, driven, last, declared, registered, compiled, actuated,
    excluded, whole⟩ := exists_model surroundings root first name
  obtain ⟨top, _⟩ := Element.child?_eq_some below
  obtain ⟨hanging, kind⟩ := Element.child?_eq_some inside
  have inner (x : Element) (member : x ∈ first.subtrees) : Declares root.declaredNames x :=
    declares_of_mem (mem_descendants top (Rose.subtrees_trans member (Rose.child_mem_subtrees hanging)))
  -- assets are registered before the bodies, and take no numbers from them
  have ready := (Session.numbered_declare "body" declared).same ((spares_assets _ _).run registered)
  obtain ⟨numbers, labels, numbered⟩ := body_named kind ready compiled
  rw [List.nil_append] at numbered
  have names : (model surroundings root first name).bodyNames = bodyNames written := by
    rw [whole]
    exact bodyNames_documentLinkage surroundings root written
  refine Robot.freshlyNamed (names ▸ labels) numbered.inTurn (.refl _) ?_ ?_ ?_
  · exact fun e listed => inner e (mem_subtrees_of_bodyElements none listed)
  · rw [whole]
    exact bears_documentLinkage (run_body kind compiled).same inner
  · intro a listed
    rw [whole] at listed
    obtain ⟨e, driving, actuator, _⟩ := exists_of_forall₂ (run_actuators actuated).2.flip listed
    obtain ⟨s, same⟩ := actuator.made
    have drive := List.mem_of_mem_filter driving
    rw [← same]
    exact run_actuator_foreign drive (declares_of_mem (mem_descendants_of_drives drive)) rfl

end Articulation.Mjcf
