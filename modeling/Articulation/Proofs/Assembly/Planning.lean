import Articulation.Proofs.Assembly.Walk
import Mathlib.Data.List.Dedup
/-! What an assembly checks before it moves a body: that names are distinct and known, that one name is
the root, and that the walk from it meets every connection. Each check is characterized on its own;
a plan stands exactly if all of them hold. -/
namespace Articulation

/-! ### Names in order -/

theorem sortedNames_perm (names : List String) : (sortedNames names).Perm names :=
  List.mergeSort_perm names _

theorem sortedNames_pairwise (names : List String) : (sortedNames names).Pairwise (· ≤ ·) := by
  have sorted := @List.pairwise_mergeSort String (fun a b => decide (a ≤ b))
    (by simpa using fun a b c => String.le_trans) (by simpa using fun a b => String.le_total a b) names
  simpa [sortedNames] using sorted

/-- The order of the names makes no difference. -/
theorem sortedNames_congr {names other : List String} (same : names.Perm other) :
    sortedNames names = sortedNames other := by
  refine List.Perm.eq_of_pairwise (fun a b _ _ => String.le_antisymm)
    (sortedNames_pairwise names) (sortedNames_pairwise other) ?_
  exact (sortedNames_perm names).trans (same.trans (sortedNames_perm other).symm)

namespace Assembly

theorem nodup_eraseDups (names : List String) : names.eraseDups.Nodup := by
  induction length : names.length using Nat.strongRecOn generalizing names with
  | ind n ih =>
    cases names with
    | nil => exact .nil
    | cons name names =>
      rw [List.eraseDups_cons]
      refine List.nodup_cons.mpr ⟨?_, ih _ ?_ _ rfl⟩
      · simp [List.mem_eraseDups]
      · have bound := List.length_filter_le (fun b => !b == name) names
        simp only [List.length_cons] at length
        omega

/-! ### The root -/

theorem mem_rootCandidates {connections : List Connection} {name : String} :
    name ∈ rootCandidates connections ↔
      (∃ c ∈ connections, c.parent = name) ∧ ∀ c ∈ connections, c.child ≠ name := by
  rw [rootCandidates, (sortedNames_perm _).mem_iff]
  simp

theorem nodup_rootCandidates (connections : List Connection) : (rootCandidates connections).Nodup :=
  (sortedNames_perm _).nodup_iff.mpr (nodup_eraseDups _)

theorem rootCandidates_congr {connections other : List Connection} (same : connections.Perm other) :
    rootCandidates connections = rootCandidates other := by
  refine sortedNames_congr ?_
  refine (List.perm_ext_iff_of_nodup (nodup_eraseDups _) (nodup_eraseDups _)).mpr fun name => ?_
  simp [same.mem_iff]

theorem findRoot_congr {connections other : List Connection} (same : connections.Perm other) :
    findRoot connections = findRoot other := by
  rw [findRoot, findRoot, rootCandidates_congr same]

/-- The root is the only parent that is no child. -/
theorem findRoot_eq_ok {connections : List Connection} {root : String} :
    findRoot connections = .ok root ↔
      ∀ name, ((∃ c ∈ connections, c.parent = name) ∧ ∀ c ∈ connections, c.child ≠ name) ↔
        name = root := by
  have single : findRoot connections = .ok root ↔ rootCandidates connections = [root] := by
    unfold findRoot
    split <;> simp_all
  rw [single]
  constructor
  · intro only name
    rw [← mem_rootCandidates, only, List.mem_singleton]
  · intro only
    apply List.perm_singleton.mp
    refine (List.perm_ext_iff_of_nodup (nodup_rootCandidates _) (List.nodup_singleton _)).mpr ?_
    intro name
    rw [mem_rootCandidates, only, List.mem_singleton]

/-- A name that leads to all connections, and to which none leads, is the root. -/
theorem findRoot_of_reached {connections : List Connection} {root : String} (some : connections ≠ [])
    (rooted : ∀ c ∈ connections, c.child ≠ root)
    (reached : ∀ c ∈ connections, Reaches connections root c.parent) :
    findRoot connections = .ok root := by
  refine findRoot_eq_ok.mpr fun name => ⟨?_, ?_⟩
  · rintro ⟨⟨c, member, rfl⟩, childless⟩
    rcases (reached c member).cases_tail with same | ⟨_, _, x, found, _, last⟩
    · exact same
    · exact absurd last (childless x found)
  · rintro rfl
    refine ⟨?_, rooted⟩
    obtain ⟨c, member⟩ := List.exists_mem_of_ne_nil connections some
    -- The path to any connection starts with one from the root.
    rcases (reached c member).cases_head with same | ⟨_, ⟨x, found, parent, _⟩, _⟩
    · exact ⟨c, member, same.symm⟩
    · exact ⟨x, found, parent⟩

theorem soleBody_congr {names other : List String} (same : names.Perm other) :
    soleBody names = soleBody other := by
  cases names with
  | nil => rw [same.nil_eq]
  | cons name names =>
    cases names with
    | nil => rw [List.singleton_perm.mp same]
    | cons second names =>
      match other, same.length_eq with
      | first :: next :: rest, _ => simp only [soleBody, sortedNames_congr same]

theorem soleBody_eq_ok {names : List String} {root : String} :
    soleBody names = .ok root ↔ names = [root] := by
  unfold soleBody
  split <;> simp_all

theorem rootOf_congr {names others : List String} {connections other : List Connection}
    (names_perm : names.Perm others) (perm : connections.Perm other) :
    rootOf names connections = rootOf others other := by
  unfold rootOf
  rw [soleBody_congr names_perm, findRoot_congr perm, perm.isEmpty_eq]

/-! ### The names -/

theorem firstRepeated?_eq_some {earlier names : List String} {name : String} :
    firstRepeated? earlier names = some name ↔
      ∃ before after, names = before ++ name :: after ∧ before.Nodup ∧
        (∀ other ∈ before, other ∉ earlier) ∧ (name ∈ earlier ∨ name ∈ before) := by
  induction names generalizing earlier with
  | nil => simp [firstRepeated?]
  | cons first names ih =>
    rw [firstRepeated?]
    by_cases old : first ∈ earlier
    · simp only [List.contains_eq_mem, old, decide_true, if_true, Option.some.injEq]
      constructor
      · rintro rfl
        exact ⟨[], names, rfl, .nil, by simp, .inl old⟩
      · rintro ⟨before, after, split, _, fresh, _⟩
        cases before with
        | nil => exact (List.cons.inj split).1
        | cons other before =>
          exact absurd ((List.cons.inj split).1 ▸ old) (fresh other List.mem_cons_self)
    · simp only [List.contains_eq_mem, old, decide_false, Bool.false_eq_true, if_false, ih]
      constructor
      · rintro ⟨before, after, rfl, distinct, fresh, found⟩
        refine ⟨first :: before, after, rfl, ?_, ?_, ?_⟩
        · refine List.nodup_cons.mpr ⟨fun member => ?_, distinct⟩
          exact fresh first member List.mem_cons_self
        · intro other member
          rcases List.mem_cons.mp member with rfl | member
          · exact old
          · exact fun early => fresh other member (List.mem_cons_of_mem _ early)
        · simp only [List.mem_cons] at found ⊢
          tauto
      · rintro ⟨before, after, split, distinct, fresh, found⟩
        cases before with
        | nil =>
          obtain ⟨rfl, rfl⟩ := List.cons.inj split
          simp [old] at found
        | cons other before =>
          obtain ⟨rfl, rfl⟩ := List.cons.inj split
          obtain ⟨once, distinct⟩ := List.nodup_cons.mp distinct
          refine ⟨before, after, rfl, distinct, ?_, ?_⟩
          · intro other member early
            rcases List.mem_cons.mp early with rfl | early
            · exact once member
            · exact fresh other (List.mem_cons_of_mem _ member) early
          · simp only [List.mem_cons] at found ⊢
            tauto

theorem firstRepeated?_eq_none {earlier names : List String} :
    firstRepeated? earlier names = none ↔ names.Nodup ∧ ∀ name ∈ names, name ∉ earlier := by
  induction names generalizing earlier with
  | nil => simp [firstRepeated?]
  | cons first names ih =>
    rw [firstRepeated?]
    by_cases old : first ∈ earlier
    · simp [old]
    · simp only [List.contains_eq_mem, old, decide_false, Bool.false_eq_true, if_false, ih,
        List.nodup_cons, List.mem_cons, not_or, forall_eq_or_imp, not_false_eq_true, true_and]
      constructor
      · rintro ⟨distinct, fresh⟩
        exact ⟨⟨fun member => (fresh first member).1 rfl, distinct⟩,
          fun name member => (fresh name member).2⟩
      · rintro ⟨⟨once, distinct⟩, fresh⟩
        exact ⟨distinct, fun name member => ⟨fun same => once (same ▸ member), fresh name member⟩⟩

/-- Both ends of a connection are among the names. -/
def IsKnown (names : List String) (c : Connection) : Prop := c.parent ∈ names ∧ c.child ∈ names

/-- The end of a connection that is not among the names, the parent before the child. -/
def Misses (names : List String) (c : Connection) (link : String) : Prop :=
  c.parent ∉ names ∧ link = c.parent ∨ c.parent ∈ names ∧ c.child ∉ names ∧ link = c.child

theorem known_or_misses (names : List String) (c : Connection) :
    IsKnown names c ∨ ∃ link, Misses names c link := by
  by_cases parent : c.parent ∈ names
  · by_cases child : c.child ∈ names
    · exact .inl ⟨parent, child⟩
    · exact .inr ⟨c.child, .inr ⟨parent, child, rfl⟩⟩
  · exact .inr ⟨c.parent, .inl ⟨parent, rfl⟩⟩

theorem Misses.not_known {names : List String} {c : Connection} {link : String}
    (misses : Misses names c link) : ¬ IsKnown names c := by
  rintro ⟨parent, child⟩
  rcases misses with ⟨missing, _⟩ | ⟨_, missing, _⟩
  · exact missing parent
  · exact missing child

theorem firstUnknown?_known {names : List String} {c : Connection} {later : List Connection}
    (known : IsKnown names c) : firstUnknown? names (c :: later) = firstUnknown? names later := by
  simp [firstUnknown?, known.1, known.2]

theorem firstUnknown?_misses {names : List String} {c : Connection} {later : List Connection}
    {link : String} (misses : Misses names c link) :
    firstUnknown? names (c :: later) = some (c.joint.name, link) := by
  rcases misses with ⟨missing, rfl⟩ | ⟨parent, missing, rfl⟩
  · simp [firstUnknown?, missing]
  · simp [firstUnknown?, parent, missing]

theorem firstUnknown?_eq_some {names : List String} {connections : List Connection}
    {joint link : String} :
    firstUnknown? names connections = some (joint, link) ↔
      ∃ before c after, connections = before ++ c :: after ∧ (∀ x ∈ before, IsKnown names x) ∧
        c.joint.name = joint ∧ Misses names c link := by
  constructor
  · intro found
    induction connections with
    | nil => cases found
    | cons first connections ih =>
      rcases known_or_misses names first with known | ⟨missing, misses⟩
      · rw [firstUnknown?_known known] at found
        obtain ⟨before, c, after, rfl, earlier, rest⟩ := ih found
        exact ⟨first :: before, c, after, rfl, List.forall_mem_cons.mpr ⟨known, earlier⟩, rest⟩
      · rw [firstUnknown?_misses misses] at found
        cases found
        exact ⟨[], first, connections, rfl, by simp, rfl, misses⟩
  · rintro ⟨before, c, after, rfl, known, rfl, misses⟩
    induction before with
    | nil => exact firstUnknown?_misses misses
    | cons first before ih =>
      obtain ⟨head, rest⟩ := List.forall_mem_cons.mp known
      exact (firstUnknown?_known head).trans (ih rest)

theorem firstUnknown?_eq_none {names : List String} {connections : List Connection} :
    firstUnknown? names connections = none ↔ ∀ c ∈ connections, IsKnown names c := by
  induction connections with
  | nil => simp [firstUnknown?]
  | cons first connections ih =>
    rcases known_or_misses names first with known | ⟨link, misses⟩
    · rw [firstUnknown?_known known, ih]
      exact ⟨fun rest => List.forall_mem_cons.mpr ⟨known, rest⟩,
        fun all => (List.forall_mem_cons.mp all).2⟩
    · rw [firstUnknown?_misses misses]
      constructor
      · intro none
        cases none
      · intro all
        exact absurd (all first List.mem_cons_self) misses.not_known

/-! ### The plan -/

/-- The checks in the order in which they are made. -/
theorem plan_eq (bodies : List Body) (connections : List Connection) :
    plan bodies connections =
      match firstRepeated? [] (bodies.map Body.name) with
      | some name => .error (.duplicateLink name)
      | none =>
        match firstUnknown? (bodies.map Body.name) connections with
        | some (joint, link) => .error (.unknownLink joint link)
        | none =>
          match rootOf (bodies.map Body.name) connections with
          | .error cause => .error (.topology cause)
          | .ok root =>
            match topDownOrder connections root with
            | .error cause => .error (.topology cause)
            | .ok order => .ok ⟨root, order⟩ := by
  unfold plan
  dsimp only
  cases firstRepeated? [] (bodies.map Body.name) with
  | some name => rfl
  | none =>
    cases firstUnknown? (bodies.map Body.name) connections with
    | some missing => rfl
    | none =>
      cases rootOf (bodies.map Body.name) connections with
      | error cause => rfl
      | ok root =>
        simp only [Except.mapError, bind, Except.bind]
        cases topDownOrder connections root with
        | error cause => rfl
        | ok order => rfl

theorem plan_eq_ok {bodies : List Body} {connections : List Connection} {p : Plan} :
    plan bodies connections = .ok p ↔
      (bodies.map Body.name).Nodup ∧ (∀ c ∈ connections, IsKnown (bodies.map Body.name) c) ∧
      rootOf (bodies.map Body.name) connections = .ok p.root ∧
      topDownOrder connections p.root = .ok p.order := by
  have distinct : (bodies.map Body.name).Nodup ↔
      firstRepeated? [] (bodies.map Body.name) = none := by simp [firstRepeated?_eq_none]
  rw [plan_eq, distinct, ← firstUnknown?_eq_none]
  cases firstRepeated? [] (bodies.map Body.name) with
  | some name => simp
  | none =>
    cases firstUnknown? (bodies.map Body.name) connections with
    | some missing => simp
    | none =>
      cases rootOf (bodies.map Body.name) connections with
      | error cause => simp
      | ok root =>
        constructor
        · intro planned
          cases ordered : topDownOrder connections root with
          | error cause => simp [ordered] at planned
          | ok order =>
            simp only [ordered, Except.ok.injEq] at planned
            subst planned
            exact ⟨rfl, rfl, rfl, ordered⟩
        · rintro ⟨_, _, same, ordered⟩
          cases same
          simp [ordered]

end Assembly

end Articulation
