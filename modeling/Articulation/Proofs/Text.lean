import Articulation.Attribute.Basic
import Mathlib.Data.List.DropRight
/-! Words and the texts made of them. Joined with single blanks, words are split again as they were, and
trimming leaves them alone. Whatever reads as a number is one word. -/
namespace Articulation

namespace Text

/-- One or more characters, none of them blank. -/
structure IsWord (cs : List Char) : Prop where
  nonempty : cs ≠ []
  solid : ∀ c ∈ cs, isBlank c = false

instance (cs : List Char) : Decidable (IsWord cs) :=
  decidable_of_iff (cs ≠ [] ∧ (cs.all fun c => !isBlank c) = true)
    ⟨fun ⟨nonempty, solid⟩ => ⟨nonempty, by simpa using solid⟩,
      fun ⟨nonempty, solid⟩ => ⟨nonempty, by simpa using solid⟩⟩

/-- There is no blank at either end. -/
structure Trimmed (cs : List Char) : Prop where
  first : ∀ c ∈ cs.head?, isBlank c = false
  last : ∀ c ∈ cs.getLast?, isBlank c = false

variable {cs word : List Char} {texts : List (List Char)}

/-! ### Trimming -/

theorem dropWhile_blank (first : ∀ c ∈ cs.head?, isBlank c = false) : cs.dropWhile isBlank = cs := by
  cases cs with
  | nil => rfl
  | cons c cs => exact List.dropWhile_cons_of_neg (by simp [first c rfl])

theorem head?_dropWhile_blank (cs : List Char) :
    ∀ c ∈ (cs.dropWhile isBlank).head?, isBlank c = false := by
  intro c here
  have kept := List.head?_dropWhile_not isBlank cs
  rw [Option.mem_def.mp here] at kept
  simpa using kept

theorem trim_of_trimmed (trimmed : Trimmed cs) : trim cs = cs := by
  rw [trim, dropWhile_blank trimmed.first, dropWhile_blank, List.reverse_reverse]
  rw [List.head?_reverse]
  exact trimmed.last

theorem trimmed_trim (cs : List Char) : Trimmed (trim cs) := by
  constructor
  · intro c here
    -- a text that is not empty after both ends were dropped still begins as after the first
    obtain ⟨rest, same⟩ : trim cs <+: cs.dropWhile isBlank := List.rdropWhile_prefix isBlank _
    obtain ⟨tail, whole⟩ := List.head?_eq_some_iff.mp here
    exact head?_dropWhile_blank cs c (by rw [← same, whole]; rfl)
  · intro c here
    rw [trim, List.getLast?_reverse] at here
    exact head?_dropWhile_blank _ c here

/-! ### Joining -/

theorem IsWord.trimmed (word : IsWord cs) : Trimmed cs :=
  ⟨fun c here => word.solid c (List.mem_of_mem_head? here),
    fun c here => word.solid c (List.mem_of_mem_getLast? here)⟩

theorem trimmed_nil : Trimmed [] := ⟨fun _ here => (nomatch here), fun _ here => (nomatch here)⟩

theorem Trimmed.join (first : Trimmed word) (second : Trimmed cs) (nonempty : word ≠ [])
    (more : cs ≠ []) (separator : Char) : Trimmed (word ++ separator :: cs) := by
  constructor
  · rw [List.head?_append_of_ne_nil _ nonempty]
    exact first.first
  · rw [List.getLast?_append_of_ne_nil _ (List.cons_ne_nil _ _), List.getLast?_cons_of_ne_nil more]
    exact second.last

theorem intercalate_cons_cons (separator first second : List Char) :
    separator.intercalate (first :: second :: texts) =
      first ++ (separator ++ separator.intercalate (second :: texts)) := by
  simp [List.intercalate]

theorem intercalate_ne_nil (each : ∀ w ∈ word :: texts, IsWord w) (separator : List Char) :
    separator.intercalate (word :: texts) ≠ [] := by
  have first := (each word List.mem_cons_self).nonempty
  cases texts with
  | nil => simpa [List.intercalate] using first
  | cons second texts => simp [first]

theorem trimmed_intercalate (each : ∀ w ∈ texts, IsWord w) : Trimmed ([' '].intercalate texts) := by
  induction texts with
  | nil => exact trimmed_nil
  | cons first texts ih =>
    obtain ⟨word, rest⟩ := List.forall_mem_cons.mp each
    cases texts with
    | nil => simpa [List.intercalate] using word.trimmed
    | cons second texts =>
      rw [intercalate_cons_cons]
      exact word.trimmed.join (ih rest) word.nonempty (intercalate_ne_nil rest _) ' '

/-! ### Splitting -/

/-- Characters that are not blank join the word that is being read. -/
theorem wordsFrom_append (solid : ∀ c ∈ word, isBlank c = false) (read rest : List Char) :
    wordsFrom read (word ++ rest) = wordsFrom (word.reverse ++ read) rest := by
  induction word generalizing read with
  | nil => rfl
  | cons c word ih =>
    obtain ⟨first, solid⟩ := List.forall_mem_cons.mp solid
    rw [List.cons_append, wordsFrom, if_neg (by simp [first]), ih solid, List.reverse_cons,
      List.append_assoc]
    rfl

theorem closeWord_reverse (word : IsWord cs) : closeWord cs.reverse = [cs] := by
  simp [closeWord, word.nonempty]

theorem words_word (word : IsWord cs) : words cs = [cs] := by
  rw [words, ← List.append_nil cs, wordsFrom_append word.solid, List.append_nil, wordsFrom,
    closeWord_reverse word, List.append_nil]

theorem words_intercalate (each : ∀ w ∈ texts, IsWord w) : words ([' '].intercalate texts) = texts := by
  induction texts with
  | nil => rfl
  | cons first texts ih =>
    obtain ⟨word, rest⟩ := List.forall_mem_cons.mp each
    cases texts with
    | nil => simpa [List.intercalate] using words_word word
    | cons second texts =>
      have blank : isBlank ' ' = true := by decide
      rw [intercalate_cons_cons, words, wordsFrom_append word.solid, List.append_nil,
        List.singleton_append, wordsFrom, if_pos blank, closeWord_reverse word]
      exact congrArg (first :: ·) (ih rest)

/-! ### Characters that are not blank -/

theorem isBlank_digit {c : Char} (digit : c.isDigit = true) : isBlank c = false := by
  have bounds : 48 ≤ c.toNat ∧ c.toNat ≤ 57 := by
    simpa [Char.isDigit, UInt32.le_iff_toNat_le] using digit
  simp only [isBlank, blankRanges, List.any_cons, List.any_nil, Bool.or_false, Bool.or_eq_false_iff,
    Bool.and_eq_false_iff, decide_eq_false_iff_not]
  omega

/-- No blank is a capital letter. -/
theorem toLower_of_isBlank {c : Char} (blank : isBlank c = true) : c.toLower = c := by
  have outside : ¬ (65 ≤ c.toNat ∧ c.toNat ≤ 90) := by
    simp only [isBlank, blankRanges, List.any_cons, List.any_nil, Bool.or_false, Bool.or_eq_true,
      Bool.and_eq_true, decide_eq_true_eq] at blank
    omega
  have letter : ¬ ('A'.val ≤ c.val ∧ c.val ≤ 'Z'.val) := by
    rw [UInt32.le_iff_toNat_le, UInt32.le_iff_toNat_le]
    exact outside
  exact dif_neg letter

theorem isBlank_toLower {c : Char} (solid : isBlank c.toLower = false) : isBlank c = false := by
  by_contra blank
  rw [Bool.not_eq_false] at blank
  rw [toLower_of_isBlank blank, blank] at solid
  contradiction

theorem IsWord.cons {c : Char} (first : isBlank c = false) (rest : ∀ d ∈ cs, isBlank d = false) :
    IsWord (c :: cs) :=
  ⟨List.cons_ne_nil _ _, List.forall_mem_cons.mpr ⟨first, rest⟩⟩

end Text

/-! ### Numerals -/

namespace Number

open Text (IsWord isBlank isBlank_digit)

variable {cs : List Char}

theorem digits_of_natural? {n : Nat} (read : natural? cs = some n) :
    cs ≠ [] ∧ ∀ c ∈ cs, c.isDigit = true := by
  unfold natural? at read
  split at read
  · contradiction
  · rename_i digits
    simpa using digits

theorem isWord_natural? {n : Nat} (read : natural? cs = some n) : IsWord cs :=
  ⟨(digits_of_natural? read).1, fun c member => isBlank_digit ((digits_of_natural? read).2 c member)⟩

theorem isWord_integer? {n : Int} (read : integer? cs = some n) : IsWord cs := by
  unfold integer? at read
  split at read
  all_goals
    simp only [Option.map_eq_some_iff, Option.bind_eq_bind, Option.bind_eq_some_iff] at read
    obtain ⟨_, ⟨n, digits, _⟩, _⟩ := read
    have word := isWord_natural? digits
  · exact .cons (by decide) word.solid
  · exact .cons (by decide) word.solid
  · exact word

theorem isWord_int64? {n : Int64} (read : int64? cs = some n) : IsWord cs := by
  obtain ⟨m, fits, _⟩ := Option.map_eq_some_iff.mp read
  exact isWord_integer? (Option.filter_eq_some_iff.mp fits).1

theorem solid_exponent? {e : Int} (read : exponent? cs = some e) : ∀ c ∈ cs, isBlank c = false := by
  unfold exponent? at read
  split at read
  · exact fun _ member => (nomatch member)
  · rename_i c cs
    split at read
    · rename_i mark
      have first : isBlank c = false := by rcases mark with rfl | rfl <;> decide
      exact (IsWord.cons first (isWord_integer? read).solid).solid
    · contradiction

/-- Digits in front of what holds no blank are no blanks either. -/
theorem solid_of_dropWhile (rest : ∀ c ∈ cs.dropWhile Char.isDigit, isBlank c = false) :
    ∀ c ∈ cs, isBlank c = false := by
  intro c member
  rw [← List.takeWhile_append_dropWhile (p := Char.isDigit) (l := cs)] at member
  rcases List.mem_append.mp member with digit | later
  · exact isBlank_digit (List.mem_takeWhile_imp digit)
  · exact rest c later

theorem isWord_decimal? {d : Decimal} (read : decimal? cs = some d) : IsWord cs := by
  have nonempty : cs ≠ [] := by
    rintro rfl
    contradiction
  refine ⟨nonempty, solid_of_dropWhile ?_⟩
  unfold decimal? at read
  dsimp only at read
  split at read
  · rename_i fraction point
    split at read
    · contradiction
    · obtain ⟨e, exponent, _⟩ := Option.map_eq_some_iff.mp read
      rw [point]
      exact List.forall_mem_cons.mpr ⟨by decide, solid_of_dropWhile (solid_exponent? exponent)⟩
  · split at read
    · contradiction
    · obtain ⟨e, exponent, _⟩ := Option.map_eq_some_iff.mp read
      exact solid_exponent? exponent

theorem isWord_isWord {word : String} (solid : IsWord word.toList) (same : isWord word cs = true) :
    IsWord cs := by
  have lowered : cs.map Char.toLower = word.toList := beq_iff_eq.mp same
  rw [← lowered] at solid
  refine ⟨fun empty => solid.nonempty (by rw [empty, List.map_nil]), fun c member => ?_⟩
  exact Text.isBlank_toLower (solid.solid _ (List.mem_map_of_mem member))

theorem isWord_magnitude32? {x : Float32} (read : magnitude32? cs = some x) : IsWord cs := by
  unfold magnitude32? at read
  split at read
  · rename_i infinite
    rcases Bool.or_eq_true_iff.mp infinite with short | long
    · exact isWord_isWord (by decide) short
    · exact isWord_isWord (by decide) long
  · split at read
    · rename_i nan
      exact isWord_isWord (by decide) nan
    · obtain ⟨d, decimal, _⟩ := Option.map_eq_some_iff.mp read
      exact isWord_decimal? decimal

theorem isWord_binary32? {x : Float32} (read : binary32? cs = some x) : IsWord cs := by
  unfold binary32? at read
  split at read
  · obtain ⟨_, magnitude, _⟩ := Option.map_eq_some_iff.mp read
    exact .cons (by decide) (isWord_magnitude32? magnitude).solid
  · exact .cons (by decide) (isWord_magnitude32? read).solid
  · exact isWord_magnitude32? read

/-! ### Digits of integers -/

theorem isDigit_toDigits (n : Nat) : ∀ c ∈ Nat.toDigits 10 n, c.isDigit = true :=
  fun _ member => Nat.isDigit_of_mem_toDigits (by decide) (by decide) member

theorem natural?_toDigits (n : Nat) : natural? (Nat.toDigits 10 n) = some n := by
  have digits : (Nat.toDigits 10 n).all Char.isDigit = true :=
    List.all_eq_true.mpr (isDigit_toDigits n)
  rw [natural?, digits, List.isEmpty_eq_false_iff.mpr Nat.toDigits_ne_nil]
  exact congrArg some Nat.ofDigitChars_ten_toDigits

/-- Digits bear no sign. -/
theorem integer?_toDigits (n : Nat) : integer? (Nat.toDigits 10 n) = some (n : Int) := by
  have digits := isDigit_toDigits n
  have read := natural?_toDigits n
  unfold integer?
  split
  · rename_i cs minus
    exact absurd (digits '-' (by simp [minus])) (by decide)
  · rename_i cs plus
    exact absurd (digits '+' (by simp [plus])) (by decide)
  · rw [read]
    rfl

theorem integer?_integerDigits (n : Int) : integer? (integerDigits n) = some n := by
  unfold integerDigits
  split
  · rename_i negative
    have magnitude : -(n.natAbs : Int) = n := by omega
    simp only [integer?, natural?_toDigits, Option.bind_eq_bind, Option.bind_some, Option.map_some,
      Option.pure_def, magnitude]
  · rename_i positive
    rw [integer?_toDigits, Int.natAbs_of_nonneg (Int.not_lt.mp positive)]

theorem int64?_integerDigits (n : Int64) : int64? (integerDigits n.toInt) = some n := by
  have fits : fitsInt64 n.toInt = true := by
    rw [fitsInt64, Bool.and_eq_true, decide_eq_true_eq, decide_eq_true_eq]
    exact ⟨Int64.le_toInt n, Int64.toInt_le n⟩
  rw [int64?, integer?_integerDigits, Option.filter_some_pos fits, Option.map_some, Int64.ofInt_toInt]

end Number

end Articulation
