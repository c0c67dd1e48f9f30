import Articulation.Proofs.Markup.Conformance
import Articulation.Proofs.Text
/-! Attribute values and their texts. A value that was read is told by its text, so reading the text gives
the value again, and writing the text to an element is as good as writing the value. -/
namespace Articulation

/-- The text of the float reads as the float. -/
def Number.ReadsBack (x : Float32) : Prop := binary32? (plain x).toList = some x

namespace AttributeValue

open Text (IsWord Trimmed)

/-- The floats in a value. -/
def floats : AttributeValue → List Float32
  | float value => [value]
  | floatArray values => values
  | _ => []

/-- Nothing of the value is lost in its text. Integers never lose anything, a string loses blanks at its
ends, and a float depends on the digits that are printed for it. -/
def Legible : AttributeValue → Prop
  | int _ | intArray _ => True
  | float value => Number.ReadsBack value
  | floatArray values => ∀ x ∈ values, Number.ReadsBack x
  | string value => Trimmed value.toList

/-! ### Arrays -/

section

variable {α : Type} {print : α → String} {read : List Char → Option α} {values : List α}

theorem mapM_print (each : ∀ x ∈ values, read (print x).toList = some x) :
    (values.map fun x => (print x).toList).mapM read = some values := by
  induction values with
  | nil => rfl
  | cons x values ih =>
    obtain ⟨first, rest⟩ := List.forall_mem_cons.mp each
    rw [List.map_cons, List.mapM_cons, first, ih rest]
    rfl

/-- Items joined by blanks are read as they were, if each of them is read and only words are. -/
theorem words_text (word : ∀ {cs x}, read cs = some x → IsWord cs)
    (each : ∀ x ∈ values, read (print x).toList = some x) :
    (Text.words (Text.trim (" ".intercalate (values.map print)).toList)).mapM read = some values := by
  have texts : (" ".intercalate (values.map print)).toList =
      [' '].intercalate (values.map fun x => (print x).toList) := by
    rw [String.toList_intercalate, List.map_map]
    rfl
  have words : ∀ cs ∈ values.map fun x => (print x).toList, IsWord cs := by
    intro cs member
    obtain ⟨x, listed, rfl⟩ := List.mem_map.mp member
    exact word (each x listed)
  rw [texts, Text.trim_of_trimmed (Text.trimmed_intercalate words), Text.words_intercalate words,
    mapM_print each]

end

/-! ### Values -/

theorem read?_text {value : AttributeValue} (legible : value.Legible) :
    read? value.type value.text = some value := by
  cases value with
  | int n =>
    have digits := Number.int64?_integerDigits n
    have trimmed := (Number.isWord_int64? digits).trimmed
    rw [text, type, read?, String.toList_ofList, Text.trim_of_trimmed trimmed, digits]
    rfl
  | float x =>
    have trimmed := (Number.isWord_binary32? legible).trimmed
    rw [text, type, read?, Text.trim_of_trimmed trimmed, legible]
    rfl
  | intArray ns =>
    have each : ∀ n ∈ ns, Number.int64? (String.ofList (Number.integerDigits n.toInt)).toList = some n := by
      intro n _
      rw [String.toList_ofList, Number.int64?_integerDigits]
    rw [text, type, read?, words_text Number.isWord_int64? each]
    rfl
  | floatArray xs =>
    rw [text, type, read?, words_text Number.isWord_binary32? legible]
    rfl
  | string s =>
    rw [text, type, read?, Text.trim_of_trimmed legible, String.ofList_toList]

/-- What was read is legible as far as its floats are. -/
theorem legible_of_read? {type : AttributeType} {raw : String} {value : AttributeValue}
    (read : read? type raw = some value) (printed : ∀ x ∈ value.floats, Number.ReadsBack x) :
    value.Legible := by
  cases value with
  | int n => trivial
  | intArray ns => trivial
  | float x => exact printed x List.mem_cons_self
  | floatArray xs => exact printed
  | string s =>
    have same := type_read? read
    subst same
    cases read
    rw [Legible, String.toList_ofList]
    exact Text.trimmed_trim _

/-- Where its type is declared, the value is written, and writing its text does the same. -/
def WritesAlike (value : AttributeValue) : Prop :=
  ∀ (t : ElementTree) (id : Nat) (name : String),
    t.schema.attributeType? (t.tag id).kind name = some value.type →
      (Writing.setAttribute id name value).run.run t = (.ok (), t.insertAttribute id name value) ∧
      (Writing.setAttributeText id name value.text).run.run t =
        (Writing.setAttribute id name value).run.run t

theorem writesAlike {value : AttributeValue} (legible : value.Legible) : value.WritesAlike := by
  intro t id name declared
  constructor
  · rw [ElementTree.run_setAttribute, ElementTree.checkAttribute, declared]
    dsimp only
    rw [if_pos rfl]
  · rw [ElementTree.run_setAttributeText, declared]
    dsimp only
    rw [read?_text legible]

/-- A value that was read is told by its text, as far as floats are by theirs: the text reads as the value,
in its type, and may be written in its place. The same holds of all integers, all arrays of integers, all
strings without blanks at their ends, and all floats that read back, whether they were ever read or not. -/
theorem read?_recovers :
    (∀ {type : AttributeType} {raw : String} {value : AttributeValue}, read? type raw = some value →
      (∀ x ∈ value.floats, Number.ReadsBack x) →
        value.type = type ∧ read? type value.text = some value ∧ value.WritesAlike) ∧
    ∀ {value : AttributeValue}, value.Legible →
      read? value.type value.text = some value ∧ value.WritesAlike := by
  refine ⟨fun {type raw value} read printed => ?_, fun legible => ⟨read?_text legible, writesAlike legible⟩⟩
  have same := type_read? read
  have legible := legible_of_read? read printed
  refine ⟨same, ?_, writesAlike legible⟩
  rw [← same]
  exact read?_text legible

/-- The text of a value need not be the one that was read, but it gives the value back. So do the texts of
the least integer and of an array without items. -/
theorem read?_recovers_sizes :
    read? .floatArray " 0.1  -2e3 " = some (floatArray [0.1, -2000]) ∧
    (floatArray [0.1, -2000]).text = "0.1 -2000" ∧
    read? .floatArray "0.1 -2000" = some (floatArray [0.1, -2000]) ∧
    (floatArray [0.1, -2000]).WritesAlike ∧
    read? .int "-9223372036854775808" = some (int Int64.minValue) ∧
    read? .intArray "" = some (intArray []) := by
  have read : read? .floatArray " 0.1  -2e3 " = some (floatArray [0.1, -2000]) := by decide +kernel
  have text : (floatArray [0.1, -2000]).text = "0.1 -2000" := by decide +kernel
  have least : (int Int64.minValue).text = "-9223372036854775808" := by decide +kernel
  have printed : ∀ x ∈ (floatArray [0.1, -2000]).floats, Number.ReadsBack x := by
    unfold Number.ReadsBack
    decide +kernel
  obtain ⟨_, again, written⟩ := read?_recovers.1 read printed
  have legible : (int Int64.minValue).Legible ∧ (intArray []).Legible := ⟨trivial, trivial⟩
  have integer := (read?_recovers.2 legible.1).1
  rw [least] at integer
  rw [text] at again
  exact ⟨read, text, again, written, integer, (read?_recovers.2 legible.2).1⟩

end AttributeValue

end Articulation
