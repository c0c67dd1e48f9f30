import Articulation.Proofs.Element.Arena
/-! Trees under the comparison of their floats. A tree without not-a-number agrees with itself, and trees
that agree have the same numbers above and below each node. -/
namespace Articulation

theorem Number.beq_self {x : Float32} (number : x.isNaN = false) : Float32.beq x x = true := by
  have unpacked : x.toModel.unpack.isNaN = false := number
  show (x.toModel.unpack.compare x.toModel.unpack == some .eq) = true
  cases shape : x.toModel.unpack with
  | notANumber =>
    rw [shape] at unpacked
    contradiction
  | infinity sign => cases sign <;> rfl
  | zero sign => rfl
  | finite sign mantissa exponent positive =>
    have exponents : compare exponent exponent = .eq := Std.ReflCmp.compare_self
    have mantissas : compare mantissa mantissa = .eq := Std.ReflCmp.compare_self
    cases sign with
    | negative =>
      show (some ((compare exponent exponent).then (compare mantissa mantissa)).swap == some .eq) = true
      rw [exponents, mantissas]
      rfl
    | positive =>
      show (some ((compare exponent exponent).then (compare mantissa mantissa)) == some .eq) = true
      rw [exponents, mantissas]
      rfl

/-- Whether some float of a value is not a number. -/
def AttributeValue.hasNaN : AttributeValue → Bool
  | float value => value.isNaN
  | floatArray values => values.any Float32.isNaN
  | _ => false

/-- A list agrees with itself where each of its elements does. -/
theorem all_zip_self {α : Type} (same : α → α → Bool) {values : List α}
    (each : ∀ x ∈ values, same x x = true) : ((values.zip values).all fun p => same p.1 p.2) = true := by
  have pairs : values.zip values = values.map fun x => (x, x) := List.zipWith_self
  rw [pairs, List.all_map, List.all_eq_true]
  exact each

theorem AttributeValue.agrees_self {value : AttributeValue} (numbers : value.hasNaN = false) :
    value.agrees value = true := by
  cases value with
  | int | intArray | string => exact beq_self_eq_true _
  | float value => exact Number.beq_self numbers
  | floatArray values =>
    have each : ∀ x ∈ values, Float32.beq x x = true := fun x member =>
      Number.beq_self (by simpa using List.any_eq_false.mp numbers x member)
    rw [agrees, beq_self_eq_true, all_zip_self Float32.beq each]
    rfl

theorem Attributes.agrees_self {a : Attributes} (numbers : ∀ entry ∈ a.listed, entry.2.hasNaN = false) :
    Attributes.agrees a a = true := by
  have each := all_zip_self (fun x y : String × AttributeValue => x.2.agrees y.2) fun entry member =>
    AttributeValue.agrees_self (numbers entry member)
  rw [Attributes.agrees, beq_self_eq_true, each]
  rfl

namespace ElementTree

variable {t u : ElementTree} {id : Nat}

/-- No attribute in a tree holds a float that is not a number. -/
def NaNFree (t : ElementTree) : Prop :=
  ∀ id < t.size, ∀ entry ∈ (t.tag id).attributes.listed, entry.2.hasNaN = false

/-- A node is what its number gives. -/
theorem node_eq (inside : id < t.size) : t.nodes[id]? = some ⟨t.tag id, t.above id, t.below id⟩ := by
  have found := Array.getElem?_eq_getElem inside
  rw [tag, above, below, found]
  rfl

theorem agrees_self (numbers : t.NaNFree) : t.agrees t = true := by
  have each : ∀ node ∈ t.nodes.toList, Node.agrees node node = true := by
    intro node member
    obtain ⟨id, inside, rfl⟩ := List.mem_iff_getElem.mp member
    have own := numbers id inside
    have here : t.tag id = t.nodes[id].tag := by
      rw [tag, Array.getElem?_eq_getElem inside]
      rfl
    rw [here] at own
    rw [Array.getElem_toList, Node.agrees, beq_self_eq_true, beq_self_eq_true, beq_self_eq_true,
      Attributes.agrees_self own]
    rfl
  rw [agrees, beq_self_eq_true, beq_self_eq_true, all_zip_self Node.agrees each]
  rfl

theorem size_of_agrees (agree : t.agrees u = true) : t.size = u.size := by
  rw [agrees, Bool.and_eq_true, Bool.and_eq_true] at agree
  exact beq_iff_eq.mp agree.1.2

theorem below_of_agrees (agree : t.agrees u = true) (id : Nat) : t.below id = u.below id := by
  have sized := size_of_agrees agree
  by_cases inside : id < t.size
  · rw [agrees, Bool.and_eq_true] at agree
    have pair : (t.nodes.toList.zip u.nodes.toList)[id]? =
        some (⟨t.tag id, t.above id, t.below id⟩, ⟨u.tag id, u.above id, u.below id⟩) := by
      rw [List.getElem?_zip_eq_some, Array.getElem?_toList, Array.getElem?_toList]
      exact ⟨node_eq inside, node_eq (sized ▸ inside)⟩
    have nodes := List.all_eq_true.mp agree.2 _ (List.mem_of_getElem? pair)
    rw [Node.agrees, Bool.and_eq_true, Bool.and_eq_true] at nodes
    exact beq_iff_eq.mp nodes.1.2
  · rw [below_eq_nil (Nat.not_lt.mp inside), below_eq_nil (sized ▸ Nat.not_lt.mp inside)]

theorem numbers_of_agrees (agree : t.agrees u = true) (id : Nat) : t.numbers id = u.numbers id := by
  have shapes (fuel : Nat) : ∀ id, t.shape fuel id = u.shape fuel id := by
    induction fuel with
    | zero => exact fun _ => rfl
    | succ fuel ih =>
      intro id
      rw [shape_succ, shape_succ, below_of_agrees agree, funext ih]
  rw [numbers, numbers, size_of_agrees agree, shapes]

end ElementTree

end Articulation
