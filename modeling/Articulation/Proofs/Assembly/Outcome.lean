import Articulation.Proofs.Assembly.Growth
import Articulation.Proofs.Assembly.Planning
/-! How an assembly ends once its plan stands: every connection of the plan is consumed, the root is
then in the pool, and the tree fails only over names that the plan does not meet. -/
namespace Articulation.Assembly

variable {bodies : List Body} {connections : List Connection} {p : Plan}

/-- The connections of a plan from the top down. -/
def Plan.sequence (p : Plan) : List Connection := p.order.map (·.1)

theorem Plan.children_sequence (p : Plan) : p.sequence.map (·.child) = children p.order :=
  map_children p.order

theorem rootOf_mem {names : List String} {root : String}
    (known : ∀ c ∈ connections, IsKnown names c) (rooted : rootOf names connections = .ok root) :
    root ∈ names := by
  unfold rootOf at rooted
  split at rooted
  · rw [soleBody_eq_ok.mp rooted]
    exact List.mem_singleton_self root
  · obtain ⟨⟨c, member, rfl⟩, _⟩ := (findRoot_eq_ok.mp rooted root).mpr rfl
    exact (known c member).1

/-- What a plan promises. -/
structure Planned (bodies : List Body) (connections : List Connection) (p : Plan) : Prop where
  distinct : (bodies.map Body.name).Nodup
  known : ∀ c ∈ connections, IsKnown (bodies.map Body.name) c
  root : p.root ∈ bodies.map Body.name
  walk : IsWalk connections p.root p.order

theorem planned (stands : plan bodies connections = .ok p) : Planned bodies connections p := by
  obtain ⟨distinct, known, rooted, ordered⟩ := plan_eq_ok.mp stands
  exact ⟨distinct, known, rootOf_mem known rooted, topDownOrder_eq_ok ordered⟩

namespace Planned

theorem indexed (ready : Planned bodies connections p) {c : Indexed} (member : c ∈ p.order) :
    c.1 ∈ connections ∧ connections[c.2]? = some c.1 := by
  have listed := ready.walk.perm.mem_iff.mp member
  exact ⟨(ready.walk.mem_iff c.1).mp (List.mem_map_of_mem member),
    List.mem_zipIdx_iff_getElem?.mp listed⟩

theorem indices_nodup (ready : Planned bodies connections p) : (p.order.map (·.2)).Nodup := by
  refine (ready.walk.perm.map _).nodup_iff.mpr ?_
  rw [List.zipIdx_map_snd]
  exact List.nodup_range'

/-- The run over a last part of the order, from a full stock. -/
theorem run (ready : Planned bodies connections p) (before after : List Indexed)
    (split : p.order = before ++ after) :
    ∃ left, (after.map (·.2)).reverse.foldlM Stock.consume (.start bodies connections) =
        .ok ⟨left, pooled bodies (after.map (·.1))⟩ ∧
      ∀ c ∈ p.order, c.2 ∉ after.map (·.2) → left[c.2]? = some (some c.1) := by
  have within : ∀ c ∈ after, c ∈ p.order := fun c member => split ▸ List.mem_append_right _ member
  have full : ∀ c ∈ p.order, (connections.map some)[c.2]? = some (some c.1) := by
    intro c member
    rw [List.getElem?_map, (ready.indexed member).2]
    rfl
  have top : TopDown ([p.root] ++ (before.map (·.1)).map (·.child)) (after.map (·.1)) := by
    apply TopDown.drop
    rw [← List.map_append, ← split]
    exact ready.walk.topDown
  have once : (after.map (·.2)).Nodup := by
    have all := ready.indices_nodup
    rw [split, List.map_append] at all
    exact (List.nodup_append.mp all).2.1
  obtain ⟨left, run, kept⟩ := foldlM_consume ready.distinct top
    (fun c member => ready.known c.1 (ready.indexed (within c member)).1) once
    (fun c member => full c (within c member))
  exact ⟨left, run, fun c member outside => (kept c.2 outside).trans (full c member)⟩

/-- Every connection is live when its turn comes. -/
theorem live (ready : Planned bodies connections p) {before after : List Indexed} {c : Indexed}
    (split : p.order = before ++ c :: after) :
    ∃ s, (after.map (·.2)).reverse.foldlM Stock.consume (.start bodies connections) = .ok s ∧
      s.Live c := by
  have member : c ∈ p.order := by rw [split]; simp
  obtain ⟨left, run, kept⟩ := ready.run (before ++ [c]) after (by simpa using split)
  have top : TopDown ([p.root] ++ (before.map (·.1)).map (·.child)) (c.1 :: after.map (·.1)) := by
    apply TopDown.drop
    have topDown := ready.walk.topDown
    rw [split, List.map_append, List.map_cons] at topDown
    exact topDown
  have first : c.2 ∉ after.map (·.2) := by
    have once := ready.indices_nodup
    rw [split, List.map_append, List.map_cons] at once
    exact (List.nodup_cons.mp (List.nodup_append.mp once).2.1).1
  obtain ⟨parent, child⟩ := ready.known c.1 (ready.indexed member).1
  exact ⟨_, run, live_pooled ready.distinct top parent child (kept c member first)⟩

theorem root_not_child (ready : Planned bodies connections p) :
    p.root ∉ p.sequence.map (·.child) := by
  rw [p.children_sequence]
  exact (List.nodup_cons.mp ready.walk.nodup).1

/-- At the end of the run the root is in the pool, with all that hangs below it. -/
theorem run_root (ready : Planned bodies connections p) :
    ∃ left, (p.order.map (·.2)).reverse.foldlM Stock.consume (.start bodies connections) =
        .ok ⟨left, pooled bodies p.sequence⟩ ∧
      (pooled bodies p.sequence).find? (isNamed p.root) = some (grown bodies p.sequence p.root) := by
  obtain ⟨left, run, _⟩ := ready.run [] p.order rfl
  exact ⟨left, run, find?_pooled ready.distinct ready.root ready.root_not_child⟩

end Planned

/-- The names that a plan does not meet. -/
def Plan.stranded (p : Plan) (bodies : List Body) : List String :=
  (bodies.map Body.name).filter fun name => !(p.root :: children p.order).contains name

theorem names_stranded (p : Plan) (bodies : List Body) :
    ((pooled bodies p.sequence).filter fun body => !isNamed p.root body).map Body.name =
      p.stranded bodies := by
  have named : ((pooled bodies p.sequence).filter fun body => !isNamed p.root body).map Body.name =
      ((pooled bodies p.sequence).map Body.name).filter fun name => !(name == p.root) := by
    rw [List.filter_map]
    rfl
  rw [named, names_pooled, List.filter_filter, p.children_sequence, Plan.stranded]
  apply List.filter_congr
  intro name _
  rw [Bool.eq_iff_iff]
  simp

/-- A tree stands exactly if the plan meets all names, and is then the root with all that grows on it. -/
theorem erect_eq (stands : plan bodies connections = .ok p) :
    p.erect bodies connections =
      match p.stranded bodies with
      | [] => .ok (grown bodies p.sequence p.root)
      | names => .error (.topology (.multipleRoots (sortedNames (p.root :: names)))) := by
  obtain ⟨left, run, root⟩ := (planned stands).run_root
  simp only [Plan.erect, run, bind, Except.bind, root]
  rw [← names_stranded]
  cases (pooled bodies p.sequence).filter fun body => !isNamed p.root body with
  | nil => rfl
  | cons body rest => rfl

/-! ### Bare bodies -/

/-- A revolute joint between two bodies, at the frame of the child. -/
def hinge (joint parent child : String) : Connection :=
  ⟨.ofType joint .revolute, parent, child, .identity⟩

theorem childless_ofName (names : List String) :
    ∀ body ∈ names.map Body.ofName, body.children = [] := by
  intro body member
  obtain ⟨name, _, rfl⟩ := List.mem_map.mp member
  rfl

theorem eq_ok_of_isOk {exclusions pairs : List (String × String)}
    (built : (assembleInto exclusions bodies connections).1.isOk = true)
    (listed : (assembleInto exclusions bodies connections).2 = pairs) :
    ∃ root, assembleInto exclusions bodies connections = (.ok root, pairs) := by
  generalize assembleInto exclusions bodies connections = result at built listed
  obtain ⟨outcome, _⟩ := result
  cases outcome with
  | error e => contradiction
  | ok root => exact ⟨root, by rw [← listed]⟩

end Articulation.Assembly
