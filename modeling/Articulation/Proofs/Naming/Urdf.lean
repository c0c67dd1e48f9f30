import Articulation.Proofs.Assembly.References
import Articulation.Proofs.Naming.Labels
import Articulation.Proofs.Naming.Parts
import Articulation.Proofs.Urdf.Parts
/-! Generated names of links. Links are named in the order of their elements, before the joints, and a part of
a link without a name has one that no link can have. Assembling the tree keeps all names. -/
namespace Articulation

theorem Assembly.IsTreeOf.bears {bodies : List Body} {connections : List Connection} {tree : Body}
    {P : String → Prop} (is : IsTreeOf bodies connections tree) (each : ∀ body ∈ bodies, body.link.Bears P)
    (joined : ∀ c ∈ connections, P c.joint.name) : ∀ link ∈ tree.preorder, link.Bears P := by
  intro link inside
  obtain ⟨body, member, rfl⟩ := List.mem_map.mp inside
  rw [← Body.bodies_eq] at member
  show Link.Bears P (Body.link body)
  rcases is.hanging body member with rfl | ⟨c, connected, given, listed, _, same⟩
  · obtain ⟨given, listed, same⟩ := is.rooted
    rw [same]
    exact each given listed
  · have known := each given listed
    rw [same]
    refine ⟨List.forall_mem_append.mpr ⟨known.joints, ?_⟩, known.colliders, known.drawables⟩
    exact List.forall_mem_singleton.mpr (joined c connected)

namespace Urdf

open Session (Numbered Spares indexedName)

variable {surroundings : Surroundings} {declared : List String} {numbers : List Nat} {e : Element}
  {s t : Session}

/-! ### Parts of a link -/

/-- No link has the name of a part, as the mark between the two is in the stem of the part. -/
theorem foreign_label {link part : String} (i : Nat) (declares : Declares declared e) :
    Foreign declared "link" (label link part e i) := by
  unfold label
  cases own : e.name? with
  | some name => exact .inl (declares name own)
  | none =>
    refine .inr ⟨s!"{link}_{part}", i, fun same => ?_, rfl⟩
    have marked : '_' ∈ (link ++ "_" ++ part).toList := by simp
    rw [show link ++ "_" ++ part = "link" from same] at marked
    revert marked
    decide

theorem name_paint {d painted : Drawable} (run : (paint d e).run s = (painted, t)) : painted.name = d.name := by
  unfold paint at run
  dsimp only at run
  split at run
  · obtain ⟨rfl, rfl⟩ := run_pure.mp run
    cases color? e <;> rfl
  · obtain ⟨material, u, declared, run⟩ := run_bind.mp run
    split at run
    · obtain ⟨rfl, rfl⟩ := run_pure.mp run
      rfl
    · split at run
      · obtain ⟨_, v, reported, run⟩ := run_bind.mp run
        obtain ⟨rfl, rfl⟩ := run_pure.mp run
        cases color? e <;> rfl
      · obtain ⟨rfl, rfl⟩ := run_pure.mp run
        cases color? e <;> rfl

theorem name_drawable {link : String} {i : Nat} {found : Option Drawable}
    (run : (drawable surroundings link e i).run s = (found, t)) :
    ∀ d, found = some d → d.name = label link "visual" e i := by
  obtain ⟨made, u, shaped, run⟩ := run_bind.mp run
  cases made with
  | none =>
    obtain ⟨rfl, rfl⟩ := run_pure.mp run
    exact fun _ same => (nomatch same)
  | some shape =>
    dsimp only at run
    split at run
    · obtain ⟨rfl, rfl⟩ := run_pure.mp run
      exact fun d same => Option.some.inj same ▸ rfl
    · obtain ⟨d, painted, rfl⟩ := run_map.mp run
      exact fun other same => Option.some.inj same ▸ name_paint painted

theorem name_collider {link : String} {i : Nat} {found : Option Collider}
    (run : (collider surroundings link e i).run s = (found, t)) :
    ∀ c, found = some c → c.name = label link "collision" e i := by
  obtain ⟨shape, u, shaped, run⟩ := run_bind.mp run
  obtain ⟨rfl, rfl⟩ := run_pure.mp run
  intro c same
  obtain ⟨shape, _, rfl⟩ := Option.map_eq_some_iff.mp same
  rfl

/-- The parts that the elements of one kind make are called as elements of the link are. -/
theorem foreign_parts {α : Type} {link kind part : String} {name : α → String}
    {make : Element → Nat → StateM Session (Option α)}
    (called : ∀ {x i s found t}, (make x i).run s = (found, t) →
      ∀ d, found = some d → name d = label link part x i)
    (declares : ∀ x ∈ e.children, Declares declared x) {made : List (Option α)}
    (run : ((e.childrenOf kind).zipIdx.mapM fun x => make x.1 x.2).run s = (made, t)) :
    ∀ d ∈ made.filterMap id, Foreign declared "link" (name d) := by
  intro d listed
  obtain ⟨found, member, same⟩ := List.mem_filterMap.mp listed
  have each := forall₂_of_mapM (P := fun x found => ∀ d, found = some d → name d = label link part x.1 x.2)
    (fun _ _ _ _ _ => called) run
  obtain ⟨x, numbered, all⟩ := exists_of_forall₂ each.flip member
  rw [all d same]
  have below := List.mem_of_mem_filter (List.fst_mem_of_mem_zipIdx numbered)
  exact foreign_label x.2 (declares x.1 below)

/-! ### Links -/

theorem link_named {b : Body} (numbered : Numbered declared "link" numbers s)
    (run : (link surroundings e).run s = (b, t)) : NamedFor declared "link" numbers [e] [b.name] t := by
  obtain ⟨name, u, named, run⟩ := run_bind.mp run
  obtain ⟨drawables, v, drawn, run⟩ := run_bind.mp run
  obtain ⟨colliders, w, collided, run⟩ := run_bind.mp run
  obtain ⟨rfl, rfl⟩ := run_pure.mp run
  obtain ⟨added, labels, numbered⟩ := Labels.of_nameOr numbered named
  have visuals : Spares "link" ((e.childrenOf "visual").zipIdx.mapM fun x =>
      drawable surroundings name x.1 x.2) := .mapM fun x => spares_drawable name x.1 x.2
  have collisions : Spares "link" ((e.childrenOf "collision").zipIdx.mapM fun x =>
      collider surroundings name x.1 x.2) := .mapM fun x => spares_collider name x.1 x.2
  exact ⟨added, labels, numbered.same ((visuals.run drawn).trans (collisions.run collided))⟩

/-- A link has no joints yet, and its parts have other names than links. -/
theorem bears_link {b : Body} (declares : ∀ x ∈ e.children, Declares declared x)
    (run : (link surroundings e).run s = (b, t)) : b.link.Bears (Foreign declared "link") := by
  obtain ⟨name, u, named, run⟩ := run_bind.mp run
  obtain ⟨drawables, v, drawn, run⟩ := run_bind.mp run
  obtain ⟨colliders, w, collided, run⟩ := run_bind.mp run
  obtain ⟨rfl, rfl⟩ := run_pure.mp run
  exact ⟨fun _ listed => (nomatch listed), foreign_parts name_collider declares collided,
    foreign_parts name_drawable declares drawn⟩

/-! ### Documents -/

/-- Links are named in the order of their elements, and joints after them, from a stem of their own. -/
theorem parts_named {root : Element} {bodies : List Body} {joints : List (Element × String)}
    (run : (parts surroundings root).run .start = ((bodies, joints), t)) :
    ∃ numbers, Labels "link" (root.childrenOf "link") (bodies.map Body.name) numbers ∧
      Session.InTurn root.declaredNames "link" numbers ∧
      (∀ body ∈ bodies, body.link.Bears (Foreign root.declaredNames "link")) ∧
      ∀ pair ∈ joints, Foreign root.declaredNames "link" pair.2 := by
  obtain ⟨_, u, declared, run⟩ := run_bind.mp run
  obtain ⟨_, v, registered, run⟩ := run_bind.mp run
  obtain ⟨links, w, linked, run⟩ := run_bind.mp run
  obtain ⟨named, x, joined, run⟩ := run_bind.mp run
  obtain ⟨same, rfl⟩ := run_pure.mp run
  cases same
  have materials : Session.SameNumber "link" u v :=
    (Spares.forM fun e => .map (spares_declareMaterial e)).run registered
  have ready := (Session.numbered_declare "link" declared).same materials
  obtain ⟨numbers, labels, numbered⟩ := NamedFor.mapM link_named ready linked
  have below {e : Element} {kind : String} (member : e ∈ root.childrenOf kind) : e ∈ root.children :=
    List.mem_of_mem_filter member
  refine ⟨numbers, labels, numbered.inTurn, fun body listed => ?_, fun pair listed => ?_⟩
  · have each := forall₂_of_mapM (P := fun e (b : Body) => (∀ x ∈ Rose.children e,
      Declares root.declaredNames x) → b.link.Bears (Foreign root.declaredNames "link"))
      (fun _ _ _ _ _ made declares => bears_link declares made) linked
    obtain ⟨e, member, bears⟩ := exists_of_forall₂ each.flip listed
    refine bears fun x inside => declares_of_mem (mem_descendants (below member) ?_)
    exact Rose.child_mem_subtrees inside
  · have each := forall₂_of_mapM (P := fun e (pair : Element × String) =>
      Declares root.declaredNames e → Foreign root.declaredNames "link" pair.2) ?_ joined
    · obtain ⟨e, member, foreign⟩ := exists_of_forall₂ each.flip listed
      exact foreign (declares_of_mem (mem_descendants (below member) (Rose.self_mem_subtrees e)))
    · intro e _ s y t run declares
      obtain ⟨name, u, named, run⟩ := run_bind.mp run
      obtain ⟨rfl, rfl⟩ := run_pure.mp run
      exact foreign_nameOr declares (by decide) named

theorem name_connection {name : String} {c : Connection} (made : connection e name = .ok c) :
    c.joint.name = name := by
  obtain ⟨parent, _, made⟩ := bind_eq_ok.mp made
  obtain ⟨child, _, made⟩ := bind_eq_ok.mp made
  cases made
  rfl

/-- Default actuators are called after joints. -/
theorem mem_defaultActuators {settings : UrdfSettings} {linkage : Linkage} {a : Actuator}
    (listed : a ∈ defaultActuators settings linkage) :
    ∃ joint, (∃ body ∈ linkage.bodies, joint ∈ body.link.joints) ∧ a = torqueActuator joint.name := by
  unfold defaultActuators at listed
  split at listed
  · obtain ⟨joint, driven, rfl⟩ := List.mem_map.mp listed
    obtain ⟨pair, on, rfl⟩ := List.mem_map.mp (List.mem_of_mem_filter driven)
    obtain ⟨body, inside, held⟩ := List.mem_flatMap.mp on
    obtain ⟨joint, member, rfl⟩ := List.mem_map.mp held
    exact ⟨joint, ⟨body, inside, member⟩, rfl⟩
  · cases listed

/-- The links of a robot are named for the link elements, and their generated names are the names of nothing
else. -/
theorem compile_named {root : Element} {robot : Robot}
    (compiled : compile surroundings .urdf root = .ok robot) :
    ∃ names, robot.bodyNames.Perm names ∧
      robot.FreshlyNamed root.declaredNames [] "link" (root.childrenOf "link") names := by
  cases run : (parts surroundings root).run .start with
  | mk made t =>
    obtain ⟨bodies, joints⟩ := made
    obtain ⟨numbers, labels, inTurn, bears, joined⟩ := parts_named run
    have childless (b : Body) (listed : b ∈ bodies) : b.children = [] := ((run_parts run).2 b listed).1
    rw [compile_of_parts run] at compiled
    obtain ⟨connections, connected, compiled⟩ := bind_eq_ok.mp compiled
    obtain ⟨tree, pairs, assembled, rfl⟩ := Assembly.finished_eq_ok.mp compiled
    obtain ⟨p, stands, built, _⟩ := Assembly.assembleInto_eq_ok assembled
    have mirror := Assembly.erect_isTreeOf childless stands built
    have names : ∀ c ∈ connections, Foreign root.declaredNames "link" c.joint.name := by
      intro c listed
      obtain ⟨pair, member, made⟩ := exists_of_forall₂ (mapM_eq_ok.mp connected).flip listed
      rw [name_connection made]
      exact joined pair member
    have parts := (Body.reframed_ofBody tree).bears (mirror.bears bears names)
    have perm : ((Linkage.ofBody tree).bodies.map Body.name).Perm (bodies.map Body.name) := by
      rw [Linkage.names_ofBody]
      exact mirror.names
    refine ⟨bodies.map Body.name, perm, Robot.freshlyNamed labels inTurn ?_ ?_ ?_ fun a listed => .inl ?_⟩
    · exact perm
    · intro e member
      exact declares_of_mem (mem_descendants (List.mem_of_mem_filter member) (Rose.self_mem_subtrees e))
    · exact parts
    · obtain ⟨joint, ⟨body, inside, on⟩, rfl⟩ := mem_defaultActuators listed
      exact (parts body inside).joints joint on

end Urdf

end Articulation
