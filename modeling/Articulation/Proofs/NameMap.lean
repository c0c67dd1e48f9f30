import Articulation.NameMap
import Mathlib.Data.List.Sort
/-! Maps whose entries ascend, as writes build them from the empty map. Their names are distinct, so an
entry is the value of its name, and folding all entries into another map writes each name once. -/
namespace Articulation.NameMap

variable {α : Type}

def Ascending (m : NameMap α) : Prop := m.entries.Pairwise fun a b => a.1 < b.1

theorem ascending_empty : (empty : NameMap α).Ascending := .nil

theorem lt_of_not_lt {a b : String} (distinct : a ≠ b) (after : ¬ a < b) : b < a :=
  Decidable.byContradiction fun before =>
    distinct (String.le_antisymm (String.not_lt.mp before) (String.not_lt.mp after))

theorem mem_insertEntry {name : String} {value : α} {entries : List (String × α)} {entry : String × α}
    (member : entry ∈ insertEntry name value entries) : entry = (name, value) ∨ entry ∈ entries := by
  induction entries with
  | nil => simpa [insertEntry] using member
  | cons head rest ih =>
    obtain ⟨other, old⟩ := head
    rw [insertEntry] at member
    split at member
    · rcases List.mem_cons.mp member with same | later
      · exact .inl same
      · exact .inr (List.mem_cons_of_mem _ later)
    · split at member
      · exact List.mem_cons.mp member
      · rcases List.mem_cons.mp member with same | later
        · exact .inr (same ▸ List.mem_cons_self)
        · exact (ih later).imp_right (List.mem_cons_of_mem _)

theorem Ascending.insert {m : NameMap α} (ascending : m.Ascending) (name : String) (value : α) :
    (m.insert name value).Ascending := by
  obtain ⟨entries⟩ := m
  unfold Ascending NameMap.insert at *
  dsimp only at *
  induction entries with
  | nil => exact List.pairwise_singleton _ _
  | cons head rest ih =>
    obtain ⟨other, old⟩ := head
    obtain ⟨first, later⟩ := List.pairwise_cons.mp ascending
    dsimp only [insertEntry]
    split
    · rename_i same
      subst same
      exact List.pairwise_cons.mpr ⟨first, later⟩
    · rename_i distinct
      split
      · rename_i before
        refine List.pairwise_cons.mpr ⟨fun entry member => ?_, ascending⟩
        rcases List.mem_cons.mp member with rfl | member
        · exact before
        · exact String.lt_trans before (first entry member)
      · rename_i after
        refine List.pairwise_cons.mpr ⟨fun entry member => ?_, ih later⟩
        rcases mem_insertEntry member with rfl | member
        · exact lt_of_not_lt distinct after
        · exact first entry member

theorem mem_entries_of_find? {m : NameMap α} {name : String} {value : α} (found : m.find? name = some value) :
    (name, value) ∈ m.entries := by
  obtain ⟨before, after, same, _⟩ := List.lookup_eq_some_iff.mp found
  simp [same]

/-! ### What holds of all entries -/

def All (P : String → α → Prop) (m : NameMap α) : Prop := ∀ entry ∈ m.entries, P entry.1 entry.2

namespace All

variable {P : String → α → Prop} {m : NameMap α} {name : String}

theorem empty : (empty : NameMap α).All P := fun _ member => by cases member

theorem find? (all : m.All P) {value : α} (found : m.find? name = some value) : P name value :=
  all (name, value) (mem_entries_of_find? found)

theorem insert (all : m.All P) {value : α} (holds : P name value) : (m.insert name value).All P := by
  intro entry member
  rcases mem_insertEntry member with rfl | member
  · exact holds
  · exact all entry member

theorem modify (all : m.All P) {start : α} (first : P name start) {f : α → α}
    (kept : ∀ value, P name value → P name (f value)) : (m.modify name start f).All P := by
  refine all.insert (kept _ ?_)
  cases found : m.find? name with
  | none => exact first
  | some value => exact all.find? found

end All

theorem mem_names_of_contains {m : NameMap α} {name : String} (known : m.contains name = true) :
    name ∈ m.names := by
  obtain ⟨value, found⟩ := Option.isSome_iff_exists.mp known
  exact List.mem_map_of_mem (mem_entries_of_find? found)

/-! ### Distinct names -/

/-- No name has two entries. -/
def Distinct (entries : List (String × α)) : Prop := (entries.map Prod.fst).Nodup

theorem Ascending.distinct {m : NameMap α} (ascending : m.Ascending) : Distinct m.entries := by
  refine List.pairwise_map.mpr (ascending.imp fun before equal => ?_)
  exact String.lt_irrefl _ (equal ▸ before)

theorem lookup_eq_some {entries : List (String × α)} (distinct : Distinct entries) {name : String}
    {value : α} : entries.lookup name = some value ↔ (name, value) ∈ entries := by
  induction entries with
  | nil => simp
  | cons head rest ih =>
    obtain ⟨other, old⟩ := head
    obtain ⟨first, later⟩ := List.nodup_cons.mp distinct
    rw [List.lookup_cons, List.mem_cons, Prod.mk.injEq]
    by_cases same : name = other
    · have absent : (name, value) ∉ rest := fun member =>
        first (List.mem_map.mpr ⟨_, member, same⟩)
      simp [same, same ▸ absent, eq_comm]
    · simp [beq_false_of_ne same, same, ih later]

theorem find?_eq_some {m : NameMap α} (ascending : m.Ascending) {name : String} {value : α} :
    m.find? name = some value ↔ (name, value) ∈ m.entries :=
  lookup_eq_some ascending.distinct

/-- Maps in which every name reads the same are the same. -/
theorem Ascending.ext {m n : NameMap α} (first : m.Ascending) (second : n.Ascending)
    (same : ∀ name, m.find? name = n.find? name) : m = n := by
  have : Std.Irrefl fun a b : String × α => a.1 < b.1 := ⟨fun a => String.lt_irrefl a.1⟩
  have : Std.Antisymm fun a b : String × α => a.1 < b.1 :=
    ⟨fun a b less more => absurd (String.lt_trans less more) (String.lt_irrefl a.1)⟩
  refine congrArg NameMap.mk (first.eq_of_mem_iff second fun ⟨name, value⟩ => ?_)
  rw [← find?_eq_some first, ← find?_eq_some second, same]

/-- Writing entries over a map leaves the map's value only where no entry has the name. -/
theorem find?_foldl_insert {entries : List (String × α)} (distinct : Distinct entries)
    (keep : String → Bool) (m : NameMap α) (name : String) :
    (entries.foldl (fun m entry => if keep entry.1 then m.insert entry.1 entry.2 else m) m).find? name =
      (if keep name then entries.lookup name else none).or (m.find? name) := by
  induction entries generalizing m with
  | nil => simp
  | cons head rest ih =>
    obtain ⟨first, later⟩ := List.nodup_cons.mp distinct
    rw [List.foldl_cons, ih later, List.lookup_cons]
    by_cases same : name = head.1
    · have absent : rest.lookup name = none := by
        rw [List.lookup_eq_none_iff]
        intro entry member
        rw [bne_iff_ne, same]
        exact fun equal => first (equal ▸ List.mem_map_of_mem member)
      subst same
      by_cases kept : keep head.1 <;> simp [kept, absent]
    · by_cases kept : keep head.1 <;> simp [kept, beq_false_of_ne same, same]

/-! ### Entries in order -/

theorem insertEntry_last {name : String} {value : α} {entries : List (String × α)}
    (before : ∀ entry ∈ entries, entry.1 < name) :
    insertEntry name value entries = entries ++ [(name, value)] := by
  induction entries with
  | nil => rfl
  | cons head rest ih =>
    obtain ⟨first, later⟩ := List.forall_mem_cons.mp before
    have distinct : name ≠ head.1 := fun equal => String.lt_irrefl _ (equal ▸ first)
    have after : ¬ name < head.1 := fun less => String.lt_irrefl _ (String.lt_trans first less)
    rw [insertEntry, if_neg distinct, if_neg after, ih later, List.cons_append]

/-- Entries that ascend are put one behind another. -/
theorem foldl_insertEntry {entries written : List (String × α)}
    (ascending : (written ++ entries).Pairwise fun a b => a.1 < b.1) :
    entries.foldl (fun es entry => insertEntry entry.1 entry.2 es) written = written ++ entries := by
  induction entries generalizing written with
  | nil => rw [List.foldl_nil, List.append_nil]
  | cons entry rest ih =>
    have before : ∀ other ∈ written, other.1 < entry.1 := fun other member =>
      (List.pairwise_append.mp ascending).2.2 other member entry List.mem_cons_self
    rw [List.append_cons] at ascending
    rw [List.foldl_cons, insertEntry_last before, ih ascending, List.append_assoc,
      List.singleton_append]

theorem insertEntry_map {β : Type} (f : α → β) (name : String) (value : α)
    (entries : List (String × α)) :
    (insertEntry name value entries).map (fun entry => (entry.1, f entry.2)) =
      insertEntry name (f value) (entries.map fun entry => (entry.1, f entry.2)) := by
  induction entries with
  | nil => rfl
  | cons head rest ih =>
    obtain ⟨other, old⟩ := head
    rw [insertEntry, List.map_cons, insertEntry]
    split
    · rfl
    · split
      · rfl
      · rw [List.map_cons, ih]

theorem lookup_map {β : Type} (f : α → β) (name : String) (entries : List (String × α)) :
    (entries.map fun entry => (entry.1, f entry.2)).lookup name = (entries.lookup name).map f := by
  induction entries with
  | nil => rfl
  | cons head rest ih =>
    rw [List.map_cons, List.lookup_cons, List.lookup_cons, ih]
    split <;> rfl

/-! ### Removal -/

def erase (m : NameMap α) (name : String) : NameMap α :=
  ⟨m.entries.filter fun entry => entry.1 != name⟩

theorem find?_erase (m : NameMap α) (name key : String) :
    (m.erase name).find? key = if key = name then none else m.find? key := by
  obtain ⟨entries⟩ := m
  unfold erase find?
  dsimp only
  induction entries with
  | nil => simp
  | cons head rest ih =>
    by_cases gone : head.1 = name
    · rw [List.filter_cons_of_neg (by simp [gone]), ih, List.lookup_cons]
      split
      · rfl
      · rename_i other
        rw [beq_false_of_ne (gone ▸ other)]
    · rw [List.filter_cons_of_pos (by simp [gone]), List.lookup_cons, List.lookup_cons, ih]
      by_cases here : key = head.1
      · simp [here, gone]
      · simp [beq_false_of_ne here]

end Articulation.NameMap
