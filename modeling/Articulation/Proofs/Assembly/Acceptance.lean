import Articulation.Proofs.Assembly.Outcome
/-! When an assembly succeeds and how it fails. A repeated name comes first, then an unknown one; what
is left succeeds exactly if the connections span the bodies from one root, and fails over its topology
otherwise. -/
namespace Articulation.Assembly

/-- The connections form a tree over the names: they lead to the root never, to every other name once,
and from the root to every name. -/
structure Spans (names : List String) (connections : List Connection) (root : String) : Prop where
  mem : root ∈ names
  rooted : ∀ c ∈ connections, c.child ≠ root
  single : ∀ name ∈ names, name ≠ root → (connections.map (·.child)).count name = 1
  reached : ∀ name ∈ names, Reaches connections root name

/-- The first name of a list that stands earlier in it. -/
def IsFirstRepeated (names : List String) (name : String) : Prop :=
  ∃ before after, names = before ++ name :: after ∧ before.Nodup ∧ name ∈ before

/-- The joint of the first connection with an unknown end, and that end. -/
def IsFirstUnknown (names : List String) (connections : List Connection) (joint link : String) : Prop :=
  ∃ before c after, connections = before ++ c :: after ∧ (∀ x ∈ before, IsKnown names x) ∧
    c.joint.name = joint ∧ Misses names c link

variable {bodies : List Body} {names : List String} {connections : List Connection} {p : Plan}

theorem firstRepeated?_iff {name : String} :
    firstRepeated? [] names = some name ↔ IsFirstRepeated names name := by
  rw [firstRepeated?_eq_some]
  simp [IsFirstRepeated]

theorem exists_firstRepeated : (∃ name, IsFirstRepeated names name) ↔ ¬ names.Nodup := by
  simp only [← firstRepeated?_iff]
  rw [← Option.isSome_iff_exists, ← not_iff_not, not_not, Bool.not_eq_true, Option.isSome_eq_false_iff,
    Option.isNone_iff_eq_none, firstRepeated?_eq_none]
  simp

theorem exists_firstUnknown : (∃ joint link, IsFirstUnknown names connections joint link) ↔
    ∃ c ∈ connections, ¬ IsKnown names c := by
  have known := @firstUnknown?_eq_none names connections
  simp only [IsFirstUnknown, ← firstUnknown?_eq_some]
  cases found : firstUnknown? names connections with
  | none =>
    have all := known.mp found
    simpa using all
  | some missing =>
    have some := mt known.mpr (by simp [found])
    refine ⟨fun _ => by simpa using some, fun _ => ⟨missing.1, missing.2, rfl⟩⟩

/-! ### Plans -/

theorem plan_of_repeated {name : String} (repeated : IsFirstRepeated (bodies.map Body.name) name) :
    plan bodies connections = .error (.duplicateLink name) := by
  rw [plan_eq, firstRepeated?_iff.mpr repeated]

theorem plan_of_unknown {joint link : String} (distinct : (bodies.map Body.name).Nodup)
    (unknown : IsFirstUnknown (bodies.map Body.name) connections joint link) :
    plan bodies connections = .error (.unknownLink joint link) := by
  rw [plan_eq, firstRepeated?_eq_none.mpr ⟨distinct, by simp⟩, firstUnknown?_eq_some.mpr unknown]

/-- Behind the two checks of names only the topology can be at fault. -/
theorem plan_of_known (distinct : (bodies.map Body.name).Nodup)
    (known : ∀ c ∈ connections, IsKnown (bodies.map Body.name) c) :
    plan bodies connections =
      match rootOf (bodies.map Body.name) connections with
      | .error cause => .error (.topology cause)
      | .ok root =>
        match topDownOrder connections root with
        | .error cause => .error (.topology cause)
        | .ok order => .ok ⟨root, order⟩ := by
  have checked := plan_eq bodies connections
  rw [firstRepeated?_eq_none.mpr ⟨distinct, by simp⟩, firstUnknown?_eq_none.mpr known] at checked
  exact checked

/-! ### Spanning connections -/

namespace Planned

theorem mem_children (ready : Planned bodies connections p) {name : String} :
    name ∈ children p.order ↔ name ∈ connections.map (·.child) := by
  rw [← children_zipIdx]
  exact (ready.walk.perm.map _).mem_iff

theorem stranded_eq_nil (p : Plan) (bodies : List Body) :
    p.stranded bodies = [] ↔ ∀ name ∈ bodies.map Body.name, name ∈ p.root :: children p.order := by
  rw [Plan.stranded, List.filter_eq_nil_iff]
  simp only [List.contains_eq_mem, Bool.not_eq_true', decide_eq_false_iff_not, not_not]

/-- A plan that meets all names spans them. -/
theorem spans (ready : Planned bodies connections p) (met : p.stranded bodies = []) :
    Spans (bodies.map Body.name) connections p.root := by
  have all := (stranded_eq_nil p bodies).mp met
  obtain ⟨rootless, once⟩ := List.nodup_cons.mp ready.walk.nodup
  refine ⟨ready.root, ?_, ?_, ?_⟩
  · intro c member same
    exact rootless (ready.mem_children.mpr (List.mem_map.mpr ⟨c, member, same⟩))
  · intro name member different
    rcases List.mem_cons.mp (all name member) with same | child
    · exact absurd same different
    · have distinct : (connections.map (·.child)).Nodup := by
        rw [← children_zipIdx]
        exact (ready.walk.perm.map _).nodup_iff.mp once
      exact List.count_eq_one_of_mem distinct (ready.mem_children.mp child)
  · intro name member
    refine ready.walk.topDown.reaches (fun c found => (ready.walk.mem_iff c).mp found) name ?_
    rw [map_children]
    exact all name member

end Planned

namespace Spans

variable {root : String}

theorem child_nodup (spans : Spans names connections root)
    (known : ∀ c ∈ connections, IsKnown names c) : (connections.map (·.child)).Nodup := by
  refine List.nodup_iff_count_le_one.mpr fun name => ?_
  by_cases child : name ∈ connections.map (·.child)
  · obtain ⟨c, member, rfl⟩ := List.mem_map.mp child
    exact Nat.le_of_eq (spans.single _ (known c member).2 (spans.rooted c member))
  · rw [List.count_eq_zero_of_not_mem child]
    exact Nat.zero_le 1

theorem rootOf (spans : Spans names connections root) (distinct : names.Nodup)
    (known : ∀ c ∈ connections, IsKnown names c) : rootOf names connections = .ok root := by
  unfold Assembly.rootOf
  split
  · rename_i empty
    have none : connections = [] := List.isEmpty_iff.mp empty
    refine soleBody_eq_ok.mpr (List.perm_singleton.mp ?_)
    refine (List.perm_ext_iff_of_nodup distinct (List.nodup_singleton _)).mpr fun name => ?_
    rw [List.mem_singleton]
    constructor
    · intro member
      rcases (spans.reached name member).cases_tail with same | ⟨_, _, c, found, _⟩
      · exact same
      · simp [none] at found
    · rintro rfl
      exact spans.mem
  · rename_i some
    refine findRoot_of_reached (by simpa using some) spans.rooted ?_
    exact fun c member => spans.reached _ (known c member).1

theorem ordered (spans : Spans names connections root)
    (known : ∀ c ∈ connections, IsKnown names c) :
    ∃ order, topDownOrder connections root = .ok order := by
  refine topDownOrder_isOk.mpr ⟨List.nodup_cons.mpr ⟨?_, spans.child_nodup known⟩, ?_⟩
  · intro child
    obtain ⟨c, member, same⟩ := List.mem_map.mp child
    exact spans.rooted c member same
  · exact fun c member => spans.reached _ (known c member).1

theorem planned (spans : Spans (bodies.map Body.name) connections root)
    (distinct : (bodies.map Body.name).Nodup)
    (known : ∀ c ∈ connections, IsKnown (bodies.map Body.name) c) :
    ∃ p, plan bodies connections = .ok p ∧ p.stranded bodies = [] := by
  obtain ⟨order, walked⟩ := spans.ordered known
  have stands : plan bodies connections = .ok ⟨root, order⟩ :=
    plan_eq_ok.mpr ⟨distinct, known, spans.rootOf distinct known, walked⟩
  refine ⟨_, stands, (Planned.stranded_eq_nil _ _).mpr fun name member => ?_⟩
  by_cases same : name = root
  · exact same ▸ List.mem_cons_self
  · refine List.mem_cons_of_mem _ ((Assembly.planned stands).mem_children.mpr ?_)
    have single := spans.single name member same
    exact List.count_pos_iff.mp (Nat.lt_of_lt_of_eq Nat.zero_lt_one single.symm)

end Spans

/-! ### The outcome -/

/-- Behind the two checks of names there is a tree or a fault of the topology. -/
theorem assembleInto_fst (exclusions : List (String × String)) (bodies : List Body)
    (connections : List Connection) :
    (assembleInto exclusions bodies connections).1 =
      match plan bodies connections with
      | .error e => .error e
      | .ok p => p.erect bodies connections := by
  unfold assembleInto
  cases plan bodies connections with
  | error e => rfl
  | ok p => rfl

/-- The tree is that of `assemble`, which has no list to grow. -/
theorem map_assemble (exclusions : List (String × String)) (bodies : List Body)
    (connections : List Connection) :
    (assemble bodies connections).map (·.1) = (assembleInto exclusions bodies connections).1 := by
  rw [assembleInto_fst, assemble]
  cases plan bodies connections with
  | error e => rfl
  | ok p =>
    simp only [bind, Except.bind]
    cases p.erect bodies connections with
    | error e => rfl
    | ok root => rfl

theorem outcome_isOk (exclusions : List (String × String)) :
    (∃ root, (assembleInto exclusions bodies connections).1 = .ok root) ↔
      (bodies.map Body.name).Nodup ∧ (∀ c ∈ connections, IsKnown (bodies.map Body.name) c) ∧
      ∃ root, Spans (bodies.map Body.name) connections root := by
  rw [assembleInto_fst]
  constructor
  · rintro ⟨root, assembled⟩
    cases stands : plan bodies connections with
    | error e => simp [stands] at assembled
    | ok p =>
      simp only [stands, erect_eq stands] at assembled
      have ready := Assembly.planned stands
      split at assembled
      · exact ⟨ready.distinct, ready.known, p.root, ready.spans ‹_›⟩
      · contradiction
  · rintro ⟨distinct, known, root, spans⟩
    obtain ⟨p, stands, met⟩ := spans.planned distinct known
    simp only [stands, erect_eq stands, met]
    exact ⟨_, rfl⟩

theorem outcome_of_repeated (exclusions : List (String × String)) {name : String}
    (repeated : IsFirstRepeated (bodies.map Body.name) name) :
    (assembleInto exclusions bodies connections).1 = .error (.duplicateLink name) := by
  rw [assembleInto_fst, plan_of_repeated repeated]

theorem outcome_of_unknown (exclusions : List (String × String)) {joint link : String}
    (distinct : (bodies.map Body.name).Nodup)
    (unknown : IsFirstUnknown (bodies.map Body.name) connections joint link) :
    (assembleInto exclusions bodies connections).1 = .error (.unknownLink joint link) := by
  rw [assembleInto_fst, plan_of_unknown distinct unknown]

theorem outcome_of_known (exclusions : List (String × String))
    (distinct : (bodies.map Body.name).Nodup)
    (known : ∀ c ∈ connections, IsKnown (bodies.map Body.name) c) :
    (∃ root, (assembleInto exclusions bodies connections).1 = .ok root) ∨
      ∃ cause, (assembleInto exclusions bodies connections).1 = .error (.topology cause) := by
  rw [assembleInto_fst]
  cases stands : plan bodies connections with
  | error e =>
    rw [plan_of_known distinct known] at stands
    right
    split at stands
    · cases stands
      exact ⟨_, rfl⟩
    · split at stands
      · cases stands
        exact ⟨_, rfl⟩
      · contradiction
  | ok p =>
    simp only [erect_eq stands]
    split
    · exact .inl ⟨_, rfl⟩
    · exact .inr ⟨_, rfl⟩

/-- Every assembly ends in one of four ways. -/
theorem outcome_cases (exclusions : List (String × String)) (bodies : List Body)
    (connections : List Connection) :
    (∃ name, IsFirstRepeated (bodies.map Body.name) name ∧
      (assembleInto exclusions bodies connections).1 = .error (.duplicateLink name)) ∨
    ((bodies.map Body.name).Nodup ∧ ∃ joint link,
      IsFirstUnknown (bodies.map Body.name) connections joint link ∧
      (assembleInto exclusions bodies connections).1 = .error (.unknownLink joint link)) ∨
    ((bodies.map Body.name).Nodup ∧ (∀ c ∈ connections, IsKnown (bodies.map Body.name) c) ∧
      (∃ root, Spans (bodies.map Body.name) connections root) ∧
      ∃ root, (assembleInto exclusions bodies connections).1 = .ok root) ∨
    ((bodies.map Body.name).Nodup ∧ (∀ c ∈ connections, IsKnown (bodies.map Body.name) c) ∧
      (¬ ∃ root, Spans (bodies.map Body.name) connections root) ∧
      ∃ cause, (assembleInto exclusions bodies connections).1 = .error (.topology cause)) := by
  have accepted := @outcome_isOk bodies connections exclusions
  by_cases distinct : (bodies.map Body.name).Nodup
  · by_cases known : ∀ c ∈ connections, IsKnown (bodies.map Body.name) c
    · rcases outcome_of_known exclusions distinct known with assembled | failed
      · exact .inr (.inr (.inl ⟨distinct, known, (accepted.mp assembled).2.2, assembled⟩))
      · refine .inr (.inr (.inr ⟨distinct, known, fun spans => ?_, failed⟩))
        obtain ⟨root, assembled⟩ := accepted.mpr ⟨distinct, known, spans⟩
        obtain ⟨cause, failed⟩ := failed
        cases assembled.symm.trans failed
    · have missing : ∃ c ∈ connections, ¬ IsKnown (bodies.map Body.name) c := by simpa using known
      obtain ⟨joint, link, unknown⟩ := exists_firstUnknown.mpr missing
      exact .inr (.inl ⟨distinct, joint, link, unknown, outcome_of_unknown exclusions distinct unknown⟩)
  · obtain ⟨name, repeated⟩ := exists_firstRepeated.mpr distinct
    exact .inl ⟨name, repeated, outcome_of_repeated exclusions repeated⟩

/-- How every assembly ends. A repeated name is reported first, as the first in the list of bodies; an
unknown one next, as the first in the list of connections, the parent end before the child end;
otherwise the assembly succeeds exactly if the connections span the bodies, and fails over the topology
if they do not. While connections are consumed none is missing, no end is missing from the pool, and
the root is left in it. -/
theorem assembleInto_outcome (exclusions : List (String × String)) (bodies : List Body)
    (connections : List Connection) :
    (∀ name, (assembleInto exclusions bodies connections).1 = .error (.duplicateLink name) ↔
      IsFirstRepeated (bodies.map Body.name) name) ∧
    ((∃ name, IsFirstRepeated (bodies.map Body.name) name) ↔ ¬ (bodies.map Body.name).Nodup) ∧
    (∀ joint link, (assembleInto exclusions bodies connections).1 = .error (.unknownLink joint link) ↔
      (bodies.map Body.name).Nodup ∧
        IsFirstUnknown (bodies.map Body.name) connections joint link) ∧
    ((∃ joint link, IsFirstUnknown (bodies.map Body.name) connections joint link) ↔
      ∃ c ∈ connections, ¬ IsKnown (bodies.map Body.name) c) ∧
    ((∃ root, (assembleInto exclusions bodies connections).1 = .ok root) ↔
      (bodies.map Body.name).Nodup ∧ (∀ c ∈ connections, IsKnown (bodies.map Body.name) c) ∧
        ∃ root, Spans (bodies.map Body.name) connections root) ∧
    ((∃ cause, (assembleInto exclusions bodies connections).1 = .error (.topology cause)) ↔
      (bodies.map Body.name).Nodup ∧ (∀ c ∈ connections, IsKnown (bodies.map Body.name) c) ∧
        ¬ ∃ root, Spans (bodies.map Body.name) connections root) ∧
    ∀ p, plan bodies connections = .ok p →
      (∀ before c after, p.order = before ++ c :: after → ∃ s,
        (after.map (·.2)).reverse.foldlM Stock.consume (.start bodies connections) = .ok s ∧
          s.Live c) ∧
      ∃ s, (p.order.map (·.2)).reverse.foldlM Stock.consume (.start bodies connections) = .ok s ∧
        ∃ body, s.pool.find? (isNamed p.root) = some body := by
  refine ⟨fun name => ⟨fun failed => ?_, outcome_of_repeated exclusions⟩, exists_firstRepeated,
    fun joint link => ⟨fun failed => ?_, fun found => outcome_of_unknown exclusions found.1 found.2⟩,
    exists_firstUnknown, outcome_isOk exclusions, ⟨?_, ?_⟩, fun p stands => ⟨?_, ?_⟩⟩
  · rcases outcome_cases exclusions bodies connections with ⟨other, repeated, same⟩ |
      ⟨_, _, _, _, same⟩ | ⟨_, _, _, _, same⟩ | ⟨_, _, _, _, same⟩ <;> cases failed.symm.trans same
    exact repeated
  · rcases outcome_cases exclusions bodies connections with ⟨_, _, same⟩ |
      ⟨distinct, _, _, unknown, same⟩ | ⟨_, _, _, _, same⟩ | ⟨_, _, _, _, same⟩ <;>
      cases failed.symm.trans same
    exact ⟨distinct, unknown⟩
  · rintro ⟨cause, failed⟩
    rcases outcome_cases exclusions bodies connections with ⟨_, _, same⟩ |
      ⟨_, _, _, _, same⟩ | ⟨_, _, _, _, same⟩ | ⟨distinct, known, apart, _, same⟩ <;>
      cases failed.symm.trans same
    exact ⟨distinct, known, apart⟩
  · rintro ⟨distinct, known, apart⟩
    refine (outcome_of_known exclusions distinct known).resolve_left fun assembled => apart ?_
    exact ((outcome_isOk exclusions).mp assembled).2.2
  · intro before c after split
    exact (Assembly.planned stands).live split
  · obtain ⟨left, run, root⟩ := (Assembly.planned stands).run_root
    exact ⟨_, run, _, root⟩

theorem assembleInto_outcome_pair :
    (∃ root, Spans ["A", "B"] [hinge "b" "A" "B"] root) ∧
    ∃ p, plan (["A", "B"].map Body.ofName) [hinge "b" "A" "B"] = .ok p ∧
      ∃ s, (p.order.map (·.2)).reverse.foldlM Stock.consume
          (.start (["A", "B"].map Body.ofName) [hinge "b" "A" "B"]) = .ok s ∧
        ∃ body, s.pool.find? (isNamed p.root) = some body := by
  obtain ⟨_, _, _, _, accepted, _, consumed⟩ :=
    assembleInto_outcome [] (["A", "B"].map Body.ofName) [hinge "b" "A" "B"]
  obtain ⟨root, assembled⟩ := @eq_ok_of_isOk (["A", "B"].map Body.ofName) [hinge "b" "A" "B"] []
    [("A", "B")] (by decide +kernel) (by decide +kernel)
  obtain ⟨_, _, spans⟩ := accepted.mp ⟨root, by rw [assembled]⟩
  refine ⟨spans, ?_⟩
  cases stands : plan (["A", "B"].map Body.ofName) [hinge "b" "A" "B"] with
  | error e =>
    rw [assembleInto, stands] at assembled
    cases assembled
  | ok p => exact ⟨p, rfl, (consumed p stands).2⟩

end Articulation.Assembly
