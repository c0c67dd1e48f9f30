import Articulation.Attribute.Table
import Articulation.Proofs.NameMap
import Mathlib.Data.List.Nodup
import Mathlib.Data.Prod.Basic
/-! The maps of one element's attributes taken together. A name that is looked up is the first of that name
among all entries, and a write changes the entries of one type. Where no name stands in two maps, all
entries together are a map again. -/
namespace Articulation.Attributes

variable {a b : Attributes} {name : String} {value : AttributeValue} {type : AttributeType}
  {entry : String × AttributeValue}

theorem mem_all (type : AttributeType) : type ∈ AttributeType.all := by cases type <;> decide

theorem ofType_empty (type : AttributeType) : empty.ofType type = [] := by cases type <;> rfl

theorem type_of_mem (member : entry ∈ a.ofType type) : entry.2.type = type := by
  cases type <;>
  · obtain ⟨_, _, rfl⟩ := List.mem_map.mp member
    rfl

theorem mem_listed : entry ∈ a.listed ↔ entry ∈ a.ofType entry.2.type := by
  rw [listed, List.mem_flatMap]
  constructor
  · rintro ⟨type, _, member⟩
    rwa [type_of_mem member]
  · intro member
    exact ⟨_, mem_all _, member⟩

theorem entries_inj {α : Type} {wrap : α → AttributeValue} (wraps : Function.Injective wrap)
    {m n : NameMap α} (same : m.entries.map (fun entry => (entry.1, wrap entry.2)) =
      n.entries.map fun entry => (entry.1, wrap entry.2)) : m = n :=
  congrArg NameMap.mk (List.map_injective_iff.mpr (Function.injective_id.prodMap wraps) same)

theorem ext_ofType (same : ∀ type, a.ofType type = b.ofType type) : a = b := by
  cases a
  cases b
  rw [mk.injEq]
  exact ⟨entries_inj (fun _ _ => AttributeValue.int.inj) (same .int),
    entries_inj (fun _ _ => AttributeValue.float.inj) (same .float),
    entries_inj (fun _ _ => AttributeValue.intArray.inj) (same .intArray),
    entries_inj (fun _ _ => AttributeValue.floatArray.inj) (same .floatArray),
    entries_inj (fun _ _ => AttributeValue.string.inj) (same .string)⟩

theorem find?_eq_lookup (a : Attributes) (name : String) : a.find? name = a.listed.lookup name := by
  simp only [listed, AttributeType.all, List.flatMap_cons, List.flatMap_nil, List.append_nil, ofType,
    List.lookup_append, NameMap.lookup_map]
  rfl

theorem mem_of_find?_eq_some (found : a.find? name = some value) : (name, value) ∈ a.listed := by
  rw [find?_eq_lookup] at found
  obtain ⟨before, after, same, _⟩ := List.lookup_eq_some_iff.mp found
  simp [same]

theorem not_mem_of_find?_eq_none (absent : a.find? name = none) (member : entry ∈ a.listed) :
    entry.1 ≠ name := by
  rw [find?_eq_lookup, List.lookup_eq_none_iff] at absent
  exact fun equal => by simpa [equal] using absent entry member

/-! ### Writes -/

theorem ofType_insert (a : Attributes) (name : String) (value : AttributeValue) (type : AttributeType) :
    (a.insert name value).ofType type =
      if type = value.type then NameMap.insertEntry name value (a.ofType type) else a.ofType type := by
  cases value <;> cases type <;> first | exact NameMap.insertEntry_map _ _ _ _ | rfl

theorem mem_listed_insert (member : entry ∈ (a.insert name value).listed) :
    entry = (name, value) ∨ entry ∈ a.listed := by
  rw [mem_listed, ofType_insert] at member
  split at member
  · exact (NameMap.mem_insertEntry member).imp_right mem_listed.mpr
  · exact .inr (mem_listed.mpr member)

/-- A name that no map of another type holds reads as the value written, any other name as before. -/
theorem find?_insert (free : ∀ entry ∈ a.listed, entry.1 = name → entry.2.type = value.type)
    (key : String) : (a.insert name value).find? key = if key = name then some value else a.find? key := by
  have same (type : AttributeType) : ((a.insert name value).ofType type).lookup key =
      if key = name then (if type = value.type then some value else none) else
        (a.ofType type).lookup key := by
    rw [ofType_insert]
    by_cases here : type = value.type
    · rw [if_pos here, if_pos here, NameMap.lookup_insertEntry]
    · rw [if_neg here, if_neg here]
      split
      · rename_i written
        refine List.lookup_eq_none_iff.mpr fun entry member => bne_iff_ne.mpr fun equal => here ?_
        have type := type_of_mem member
        rw [← type]
        exact free entry (mem_listed.mpr (type ▸ member)) (equal.symm.trans written)
      · rfl
  simp only [find?_eq_lookup, listed, AttributeType.all, List.flatMap_cons, List.flatMap_nil,
    List.append_nil, List.lookup_append, same]
  split
  · cases value <;> rfl
  · rfl

/-- Entries of distinct names, none of which is there yet, are all found once they are written. -/
theorem find?_foldl_insert {entries : List (String × AttributeValue)} (distinct : NameMap.Distinct entries)
    (free : ∀ entry ∈ entries, ∀ other ∈ a.listed, other.1 ≠ entry.1) (name : String) :
    (entries.foldl (fun a entry => a.insert entry.1 entry.2) a).find? name =
      (entries.lookup name).or (a.find? name) := by
  induction entries generalizing a with
  | nil => rfl
  | cons entry rest ih =>
    obtain ⟨first, later⟩ := List.nodup_cons.mp distinct
    obtain ⟨here, free⟩ := List.forall_mem_cons.mp free
    have written : (a.insert entry.1 entry.2).find? name =
        if name = entry.1 then some entry.2 else a.find? name :=
      find?_insert (fun other listed same => absurd same (here other listed)) name
    rw [List.foldl_cons, ih later, written, List.lookup_cons]
    · by_cases same : name = entry.1
      · have absent : rest.lookup name = none := List.lookup_eq_none_iff.mpr fun other member =>
          bne_iff_ne.mpr fun equal => first (List.mem_map.mpr ⟨other, member, equal.symm.trans same⟩)
        simp [same, same ▸ absent]
      · simp [same, beq_false_of_ne same]
    · intro other member x listed
      rcases mem_listed_insert listed with rfl | listed
      · exact fun equal => first (List.mem_map.mpr ⟨other, member, equal.symm⟩)
      · exact free other member x listed

/-! ### Ascending maps -/

def Ascending (a : Attributes) : Prop :=
  ∀ type, (a.ofType type).Pairwise fun x y : String × AttributeValue => x.1 < y.1

theorem ascending_empty : empty.Ascending := fun type => by
  rw [ofType_empty]
  exact .nil

theorem Ascending.insert (ascending : a.Ascending) (name : String) (value : AttributeValue) :
    (a.insert name value).Ascending := fun type => by
  rw [ofType_insert]
  split
  · exact NameMap.Ascending.insert (m := ⟨a.ofType type⟩) (ascending type) name value
  · exact ascending type

/-- No name stands twice, in one map or in two. -/
def Distinct (a : Attributes) : Prop := NameMap.Distinct a.listed

/-- Maps that ascend hold distinct names if a name determines the type of its value. -/
theorem Ascending.distinct (ascending : a.Ascending)
    (typed : ∀ x ∈ a.listed, ∀ y ∈ a.listed, x.1 = y.1 → x.2.type = y.2.type) : a.Distinct := by
  unfold Distinct NameMap.Distinct listed
  rw [List.map_flatMap, List.nodup_flatMap]
  refine ⟨fun type _ => ?_, ?_⟩
  · exact NameMap.Ascending.distinct (m := ⟨a.ofType type⟩) (ascending type)
  · refine List.Pairwise.imp (R := (· ≠ ·)) (fun {first second} different => ?_) (by decide)
    intro name here there
    obtain ⟨x, one, rfl⟩ := List.mem_map.mp here
    obtain ⟨y, other, equal⟩ := List.mem_map.mp there
    have one' := type_of_mem one
    have other' := type_of_mem other
    refine different ?_
    rw [← one', ← other']
    exact typed x (mem_listed.mpr (one' ▸ one)) y (mem_listed.mpr (other' ▸ other)) equal.symm

theorem ofType_foldl_insert (entries : List (String × AttributeValue)) (a : Attributes)
    (type : AttributeType) :
    (entries.foldl (fun a entry => a.insert entry.1 entry.2) a).ofType type =
      (entries.filter fun entry => entry.2.type == type).foldl
        (fun es entry => NameMap.insertEntry entry.1 entry.2 es) (a.ofType type) := by
  induction entries generalizing a with
  | nil => rfl
  | cons entry rest ih =>
    rw [List.foldl_cons, ih, ofType_insert]
    by_cases same : entry.2.type = type
    · rw [if_pos same.symm, List.filter_cons_of_pos (by simp [same]), List.foldl_cons]
    · rw [if_neg (Ne.symm same), List.filter_cons_of_neg (by simp [same])]

theorem filter_listed (a : Attributes) (type : AttributeType) :
    (a.listed.filter fun entry => entry.2.type == type) = a.ofType type := by
  have each (other : AttributeType) : ((a.ofType other).filter fun entry => entry.2.type == type) =
      if other = type then a.ofType other else [] := by
    split
    · rename_i same
      exact List.filter_eq_self.mpr fun entry member => beq_iff_eq.mpr ((type_of_mem member).trans same)
    · rename_i different
      refine List.filter_eq_nil_iff.mpr fun entry member same => different ?_
      exact (type_of_mem member).symm.trans (eq_of_beq same)
  rw [listed, List.filter_flatMap]
  simp only [each]
  cases type <;> simp [AttributeType.all]

/-- Attributes written one by one, as they are listed, are the attributes. -/
theorem foldl_insert_listed (ascending : a.Ascending) :
    a.listed.foldl (fun b entry => b.insert entry.1 entry.2) empty = a := by
  refine ext_ofType fun type => ?_
  rw [ofType_foldl_insert, filter_listed, ofType_empty]
  exact @NameMap.foldl_insertEntry _ _ [] (ascending type)

/-! ### Removal -/

def erase (a : Attributes) (name : String) : Attributes :=
  ⟨a.ints.erase name, a.floats.erase name, a.intArrays.erase name, a.floatArrays.erase name,
    a.strings.erase name⟩

theorem ofType_erase (a : Attributes) (name : String) (type : AttributeType) :
    (a.erase name).ofType type = (a.ofType type).filter fun entry => entry.1 != name := by
  cases type <;>
  · rw [ofType, ofType, List.filter_map]
    rfl

theorem listed_erase (a : Attributes) (name : String) :
    (a.erase name).listed = a.listed.filter fun entry => entry.1 != name := by
  rw [listed, listed, List.filter_flatMap]
  exact congrArg (List.flatMap · _) (funext (ofType_erase a name))

theorem find?_erase (a : Attributes) (name key : String) :
    (a.erase name).find? key = if key = name then none else a.find? key := by
  rw [find?_eq_lookup, find?_eq_lookup, listed_erase]
  exact NameMap.find?_erase ⟨a.listed⟩ name key

theorem Ascending.erase (ascending : a.Ascending) (name : String) : (a.erase name).Ascending :=
  fun type => by
    rw [ofType_erase]
    exact (ascending type).filter _

theorem erase_of_find?_eq_none (absent : a.find? name = none) : a.erase name = a := by
  refine ext_ofType fun type => ?_
  rw [ofType_erase, List.filter_eq_self]
  intro entry member
  exact bne_iff_ne.mpr (not_mem_of_find?_eq_none absent (mem_listed.mpr (type_of_mem member ▸ member)))

end Articulation.Attributes
