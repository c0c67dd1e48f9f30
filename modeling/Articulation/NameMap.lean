/-! Finite maps from names to values, kept as a list in ascending order of the names. Maps with the
same entries are equal, whatever the order in which the entries arrived. -/
namespace Articulation

def sortedNames (names : List String) : List String := names.mergeSort fun a b => a ≤ b

structure NameMap (α : Type) where
  entries : List (String × α)
deriving DecidableEq, Repr

namespace NameMap

variable {α : Type}

def empty : NameMap α := ⟨[]⟩

instance : Inhabited (NameMap α) := ⟨empty⟩

def find? (m : NameMap α) (name : String) : Option α := m.entries.lookup name

def contains (m : NameMap α) (name : String) : Bool := (m.find? name).isSome

def isEmpty (m : NameMap α) : Bool := m.entries.isEmpty

def size (m : NameMap α) : Nat := m.entries.length

def names (m : NameMap α) : List String := m.entries.map (·.1)

/-- Puts an entry in its place, over an entry of the same name. -/
def insertEntry (name : String) (value : α) : List (String × α) → List (String × α)
  | [] => [(name, value)]
  | (other, old) :: rest =>
    if name = other then (name, value) :: rest
    else if name < other then (name, value) :: (other, old) :: rest
    else (other, old) :: insertEntry name value rest

def insert (m : NameMap α) (name : String) (value : α) : NameMap α :=
  ⟨insertEntry name value m.entries⟩

/-- The map with the value of one name changed; a name without a value starts from `start`. -/
def modify (m : NameMap α) (name : String) (start : α) (f : α → α) : NameMap α :=
  m.insert name (f ((m.find? name).getD start))

/-- The entries of a list; of several entries of one name the last one stands. -/
def ofList (entries : List (String × α)) : NameMap α :=
  entries.foldl (fun m entry => m.insert entry.1 entry.2) empty

@[simp] theorem find?_empty (name : String) : (empty : NameMap α).find? name = none := rfl

theorem lookup_insertEntry (name key : String) (value : α) (entries : List (String × α)) :
    (insertEntry name value entries).lookup key =
      if key = name then some value else entries.lookup key := by
  induction entries with
  | nil =>
    by_cases h : key = name
    · simp [insertEntry, h]
    · simp [insertEntry, List.lookup_cons, beq_false_of_ne h, h]
  | cons entry rest ih =>
    obtain ⟨other, old⟩ := entry
    by_cases hk : key = name
    · subst hk
      by_cases he : key = other
      · simp [insertEntry, he]
      · by_cases hlt : key < other
        · simp [insertEntry, he, hlt]
        · simp [insertEntry, he, hlt, List.lookup_cons, beq_false_of_ne he, ih]
    · have hb := beq_false_of_ne hk
      by_cases he : name = other
      · subst he
        simp [insertEntry, List.lookup_cons, hb, hk]
      · by_cases hlt : name < other
        · simp [insertEntry, he, hlt, List.lookup_cons, hb, hk]
        · simp [insertEntry, he, hlt, List.lookup_cons, ih, hk]

/-- A name that was written reads as the value written, any other name as before. -/
@[simp] theorem find?_insert (m : NameMap α) (name key : String) (value : α) :
    (m.insert name value).find? key = if key = name then some value else m.find? key :=
  lookup_insertEntry name key value m.entries

end NameMap

end Articulation
