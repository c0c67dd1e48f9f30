import Articulation.Proofs.Assembly.Outcome
/-! No step of an assembly loses or doubles a body: the names of all bodies in the pool, those below
others included, are the same before and after, up to their order. -/
namespace Articulation.Assembly

/-- The names of all bodies in a pool, also of those that hang below others. -/
def allNames (pool : List Body) : List String := pool.flatMap fun body => body.bodies.map Body.name

theorem allNames_cons (body : Body) (pool : List Body) :
    allNames (body :: pool) = body.name :: allNames body.children ++ allNames pool := by
  have split : body.bodies.map Body.name = body.name :: allNames body.children := by
    rw [Body.bodies_eq, Rose.subtrees_eq, List.map_cons, Rose.subtreesAll_eq, allNames]
    simp only [List.map_flatMap, Body.bodies_eq]
  rw [allNames, List.flatMap_cons, split]
  rfl

theorem allNames_perm {pool other : List Body} (same : pool.Perm other) :
    (allNames pool).Perm (allNames other) :=
  same.flatMap_right _

theorem allNames_childless {bodies : List Body} (childless : ∀ body ∈ bodies, body.children = []) :
    allNames bodies = bodies.map Body.name := by
  induction bodies with
  | nil => rfl
  | cons body bodies ih =>
    obtain ⟨none, childless⟩ := List.forall_mem_cons.mp childless
    rw [allNames_cons, none, ih childless]
    rfl

/-- With distinct names a body can be singled out. -/
theorem perm_cons_filter {pool : List Body} (distinct : (pool.map Body.name).Nodup) {body : Body}
    (member : body ∈ pool) :
    pool.Perm (body :: pool.filter fun other => !isNamed body.name other) := by
  induction pool with
  | nil => cases member
  | cons first pool ih =>
    obtain ⟨once, distinct⟩ := List.nodup_cons.mp distinct
    rcases List.mem_cons.mp member with rfl | member
    · have rest : (pool.filter fun other => !isNamed body.name other) = pool := by
        refine List.filter_eq_self.mpr fun other found => ?_
        have different : other.name ≠ body.name := fun same =>
          once (List.mem_map.mpr ⟨other, found, same⟩)
        simpa [isNamed] using different
      rw [List.filter_cons_of_neg (by simp [isNamed]), rest]
    · have different : first.name ≠ body.name := fun same =>
        once (same ▸ List.mem_map_of_mem member)
      have kept : ((first :: pool).filter fun other => !isNamed body.name other) =
          first :: pool.filter fun other => !isNamed body.name other := by
        simp [isNamed, different]
      rw [kept]
      exact ((ih distinct member).cons first).trans (.swap body first _)

/-- With distinct names a change to the bodies of one name is a change to one body. -/
theorem perm_map_named {pool : List Body} (distinct : (pool.map Body.name).Nodup) {body : Body}
    (member : body ∈ pool) (change : Body → Body) :
    (pool.map fun other => if isNamed body.name other then change other else other).Perm
      (change body :: pool.filter fun other => !isNamed body.name other) := by
  have alone : (pool.filter fun other => !isNamed body.name other).map (fun other =>
      if isNamed body.name other then change other else other) =
      pool.filter fun other => !isNamed body.name other := by
    conv => rhs; rw [← List.map_id (pool.filter _)]
    apply List.map_congr_left
    intro other kept
    have different := (List.mem_filter.mp kept).2
    rw [Bool.not_eq_true'] at different
    simp [different]
  have changed := (perm_cons_filter distinct member).map fun other =>
    if isNamed body.name other then change other else other
  rwa [List.map_cons, if_pos (isNamed_iff.mpr rfl), alone] at changed

/-- A body that moves below another takes its names with it. -/
theorem allNames_attachFirst (parent child : Body) (pose : Pose) (rest : List Body) :
    (allNames (parent.attachFirst child pose :: rest)).Perm (allNames (child :: parent :: rest)) := by
  refine List.perm_iff_count.mpr fun name => ?_
  have below : (parent.attachFirst child pose).children = child.placed pose :: parent.children := by
    rw [Body.attachFirst_eq]
    rfl
  simp only [allNames_cons, Body.name_attachFirst, below, Body.name_placed, Body.children_placed,
    List.cons_append, List.count_cons, List.count_append]
  omega

theorem allNames_jointed (body : Body) (joint : Joint) (rest : List Body) :
    allNames (body.jointed joint :: rest) = allNames (body :: rest) := by
  simp only [allNames_cons, Body.name_jointed, Body.children_jointed]

/-- One step moves names between bodies of the pool and into them, and none is lost or doubled. -/
theorem consume_allNames {s t : Stock} {i : Nat} (distinct : (s.pool.map Body.name).Nodup)
    (step : s.consume i = .ok t) :
    (allNames t.pool).Perm (allNames s.pool) ∧ (t.pool.map Body.name).Nodup := by
  unfold Stock.consume at step
  split at step
  · cases step
    exact ⟨.refl _, distinct⟩
  · rename_i c _
    split at step
    · contradiction
    · rename_i child found
      dsimp only at step
      split at step
      · rename_i present
        cases step
        have named : child.name = c.child := isNamed_iff.mp (List.find?_some found)
        have first := perm_cons_filter distinct (List.mem_of_find?_eq_some found)
        rw [named] at first
        generalize s.pool.filter (fun body => !isNamed c.child body) = rest at *
        have others : (rest.map Body.name).Nodup :=
          (List.nodup_cons.mp ((first.map Body.name).nodup_iff.mp distinct)).2
        obtain ⟨parent, member, owner⟩ := List.any_eq_true.mp present
        rw [← isNamed_iff.mp owner]
        have second := perm_cons_filter others member
        have hung := perm_map_named others member
          (·.attachFirst (child.jointed { c.joint with pose := .identity }) c.pose)
        constructor
        · refine (allNames_perm hung).trans ((allNames_attachFirst _ _ _ _).trans ?_)
          rw [allNames_jointed]
          exact (allNames_perm (second.cons child)).symm.trans (allNames_perm first).symm
        · refine ((hung.map Body.name).nodup_iff).mpr ?_
          rw [List.map_cons, Body.name_attachFirst, ← List.map_cons]
          exact (second.map Body.name).nodup_iff.mp others
      · contradiction

/-- What every step keeps a run keeps. -/
theorem foldlM_allNames {indices : List Nat} {s t : Stock} (distinct : (s.pool.map Body.name).Nodup)
    (run : indices.foldlM Stock.consume s = .ok t) : (allNames t.pool).Perm (allNames s.pool) := by
  induction indices generalizing s with
  | nil => cases run; exact .refl _
  | cons i indices ih =>
    rw [List.foldlM_cons] at run
    cases step : s.consume i with
    | error e => rw [step] at run; contradiction
    | ok next =>
      rw [step] at run
      obtain ⟨kept, distinct⟩ := consume_allNames distinct step
      exact (ih distinct run).trans kept

/-- A tree has the names of the bodies it is made of. -/
theorem erect_allNames {bodies : List Body} {connections : List Connection} {p : Plan} {root : Body}
    (stands : plan bodies connections = .ok p) (built : p.erect bodies connections = .ok root) :
    (allNames [root]).Perm (allNames bodies) := by
  have ready := planned stands
  obtain ⟨left, run, found⟩ := ready.run_root
  have last := perm_cons_filter (nodup_pooled ready.distinct p.sequence) (List.mem_of_find?_eq_some found)
  simp only [Plan.erect, run, bind, Except.bind, found] at built
  rw [name_grown] at last
  split at built
  · rename_i alone
    cases built
    rw [alone] at last
    exact (allNames_perm last).symm.trans (foldlM_allNames ready.distinct run)
  · contradiction

end Articulation.Assembly
