import Articulation.Proofs.NameMap
import Articulation.Proofs.Session
import Mathlib.Data.List.Induction
import Mathlib.Order.Bounds.Basic
/-! Generated names. A name tells its stem and its number, so that a search which tries one number after
another meets only as many declared names as there are. Each number is the least above those that its stem
was given before at which no name is declared. -/
namespace Articulation.Session

/-! ### Stem and number -/

theorem toList_indexedName (stem : String) (k : Nat) :
    (indexedName stem k).toList = stem.toList ++ '_' :: Nat.toDigits 10 k := by
  simp [indexedName, Nat.repr, ToString.toString]

/-- Digits do not hold the mark between stem and number, so the last mark is the one between them. -/
theorem mark_not_mem_toDigits (k : Nat) : '_' ∉ Nat.toDigits 10 k := by
  intro member
  have digit := Nat.isDigit_of_mem_toDigits (by decide) (by decide) member
  revert digit
  decide

theorem eq_of_append_mark {front back : List Char} {first second : List Char}
    (clean : '_' ∉ first) (same : front ++ '_' :: first = back ++ '_' :: second)
    (also : '_' ∉ second) : front = back ∧ first = second := by
  rcases List.append_eq_append_iff.mp same with ⟨between, rfl, rest⟩ | ⟨between, rfl, rest⟩
  · cases between with
    | nil => exact ⟨(List.append_nil _).symm, (List.cons.inj rest).2⟩
    | cons c between =>
      rw [(List.cons.inj rest).2] at clean
      exact absurd (List.mem_append_right _ List.mem_cons_self) clean
  · cases between with
    | nil => exact ⟨List.append_nil _, (List.cons.inj rest).2.symm⟩
    | cons c between =>
      rw [(List.cons.inj rest).2] at also
      exact absurd (List.mem_append_right _ List.mem_cons_self) also

theorem indexedName_inj {stem other : String} {k n : Nat} :
    indexedName stem k = indexedName other n ↔ stem = other ∧ k = n := by
  constructor
  · intro same
    have same := congrArg String.toList same
    rw [toList_indexedName, toList_indexedName] at same
    obtain ⟨stems, digits⟩ :=
      eq_of_append_mark (mark_not_mem_toDigits k) same (mark_not_mem_toDigits n)
    refine ⟨String.toList_injective stems, ?_⟩
    rw [← Nat.ofDigitChars_ten_toDigits (n := k), digits, Nat.ofDigitChars_ten_toDigits]
  · rintro ⟨rfl, rfl⟩
    rfl

/-! ### The search -/

/-- The search from one number on that ends at another, however many steps that takes. -/
inductive Searches (taken : Nat → Bool) : Nat → Nat → Prop
  | free {k} : taken k = false → Searches taken k k
  | next {k n} : taken k = true → Searches taken (k + 1) n → Searches taken k n

theorem Searches.isLeast {taken : Nat → Bool} {k n : Nat} (searched : Searches taken k n) :
    IsLeast {n | k ≤ n ∧ taken n = false} n := by
  induction searched with
  | free untaken => exact ⟨⟨Nat.le_refl _, untaken⟩, fun _ other => other.1⟩
  | @next k n occupied _ ih =>
    refine ⟨⟨Nat.le_of_succ_le ih.1.1, ih.1.2⟩, fun other here => ih.2 ⟨?_, here.2⟩⟩
    refine Nat.lt_of_le_of_ne here.1 fun same => ?_
    rw [same, here.2] at occupied
    contradiction

/-- Where a free name is within the bound, the bound does not end the search. -/
theorem searches_firstFree {taken : String → Bool} {name : Nat → String} {fuel k n : Nat} (above : k ≤ n)
    (bound : n ≤ k + fuel) (free : taken (name n) = false) :
    Searches (fun n => taken (name n)) k (firstFree taken name fuel k) := by
  induction fuel generalizing k with
  | zero =>
    obtain rfl : k = n := by omega
    exact .free free
  | succ fuel ih =>
    rw [firstFree]
    cases occupied : taken (name k) with
    | false => exact .free occupied
    | true =>
      have later : k ≠ n := fun same => by rw [same, free] at occupied; contradiction
      exact .next occupied (ih (by omega) (by omega))

/-- Of more names than a map has, one is not in it. -/
theorem exists_free (m : NameMap Unit) (stem : String) (k : Nat) :
    ∃ n, k ≤ n ∧ n ≤ k + m.size ∧ m.contains (indexedName stem n) = false := by
  by_contra none
  have candidates : ((List.range' k (m.size + 1)).map (indexedName stem)).Nodup :=
    List.Nodup.map (fun _ _ same => (indexedName_inj.mp same).2) List.nodup_range'
  have known : (List.range' k (m.size + 1)).map (indexedName stem) ⊆ m.names := by
    intro name member
    obtain ⟨n, inside, rfl⟩ := List.mem_map.mp member
    rw [List.mem_range'_1] at inside
    refine NameMap.mem_names_of_contains (Bool.eq_true_of_not_eq_false fun free => none ?_)
    exact ⟨n, inside.1, by omega, free⟩
  have size := (List.subperm_of_subset candidates known).length_le
  rw [List.length_map, List.length_range', NameMap.names, List.length_map, NameMap.size] at size
  omega

/-- A name is generated by a search that ends, and what it ends at is left behind. -/
theorem run_freshName (s : Session) (stem : String) :
    ∃ k, Searches (fun n => s.declared.contains (indexedName stem n)) ((s.counters.find? stem).getD 0) k ∧
      (freshName stem).run s =
        (indexedName stem k, { s with counters := s.counters.insert stem (k + 1) }) := by
  obtain ⟨n, above, bound, free⟩ := exists_free s.declared stem ((s.counters.find? stem).getD 0)
  exact ⟨_, searches_firstFree above bound free, rfl⟩

/-! ### Numbers in turn -/

variable {declared : List String} {stem other : String} {numbers : List Nat} {k : Nat} {s t : Session}

/-- The least number above the given ones whose name is not declared. -/
def IsNext (declared : List String) (stem : String) (given : List Nat) : Nat → Prop :=
  IsLeast {k | (∀ n ∈ given, n < k) ∧ indexedName stem k ∉ declared}

/-- Each number is the next one after those before it. -/
def InTurn (declared : List String) (stem : String) (numbers : List Nat) : Prop :=
  ∀ before k after, numbers = before ++ k :: after → IsNext declared stem before k

theorem inTurn_nil : InTurn declared stem [] := by
  intro before k after same
  simp at same

theorem InTurn.concat (inTurn : InTurn declared stem numbers) (next : IsNext declared stem numbers k) :
    InTurn declared stem (numbers ++ [k]) := by
  intro before n after same
  rcases List.eq_nil_or_concat after with rfl | ⟨after, last, rfl⟩
  · obtain ⟨rfl, here⟩ := List.append_inj' same rfl
    obtain rfl := (List.cons.inj here).1
    exact next
  · rw [List.concat_eq_append, ← List.cons_append, ← List.append_assoc] at same
    exact inTurn before n after (List.append_inj' same rfl).1

theorem InTurn.isNext (inTurn : InTurn declared stem numbers) (member : k ∈ numbers) :
    ∃ before after, numbers = before ++ k :: after ∧ IsNext declared stem before k := by
  obtain ⟨before, after, same⟩ := List.append_of_mem member
  exact ⟨before, after, same, inTurn before k after same⟩

theorem InTurn.not_declared (inTurn : InTurn declared stem numbers) (member : k ∈ numbers) :
    indexedName stem k ∉ declared := by
  obtain ⟨_, _, _, next⟩ := inTurn.isNext member
  exact next.1.2

theorem InTurn.nodup (inTurn : InTurn declared stem numbers) : numbers.Nodup := by
  induction numbers using List.reverseRecOn with
  | nil => exact List.nodup_nil
  | append_singleton numbers k ih =>
    have next := inTurn numbers k [] rfl
    have earlier : InTurn declared stem numbers := fun before n after same =>
      inTurn before n (after ++ [k]) (by rw [same, List.append_assoc, List.cons_append])
    refine List.nodup_append.mpr ⟨ih earlier, List.nodup_singleton k, fun n member m last same => ?_⟩
    rw [same, List.mem_singleton.mp last] at member
    exact Nat.lt_irrefl k (next.1.1 k member)

/-! ### Sessions -/

/-- The session has given the numbers to the stem, in turn, and will go on behind them. -/
structure Numbered (declared : List String) (stem : String) (numbers : List Nat) (s : Session) : Prop where
  avoided : ∀ name, s.declared.contains name = true ↔ name ∈ declared
  counter : ∀ k, (s.counters.find? stem).getD 0 ≤ k ↔ ∀ n ∈ numbers, n < k
  inTurn : InTurn declared stem numbers

/-- The later session declares the same names and goes on at the same number of the stem. -/
structure SameNumber (stem : String) (s t : Session) : Prop where
  declared : t.declared = s.declared
  counter : t.counters.find? stem = s.counters.find? stem

theorem SameNumber.refl (s : Session) : SameNumber stem s s := ⟨rfl, rfl⟩

theorem SameNumber.trans {u : Session} (first : SameNumber stem s t) (second : SameNumber stem t u) :
    SameNumber stem s u :=
  ⟨second.declared.trans first.declared, second.counter.trans first.counter⟩

theorem Numbered.same (numbered : Numbered declared stem numbers s) (same : SameNumber stem s t) :
    Numbered declared stem numbers t where
  avoided := by
    rw [same.declared]
    exact numbered.avoided
  counter := by
    rw [same.counter]
    exact numbered.counter
  inTurn := numbered.inTurn

theorem contains_declare (names : List String) (m : NameMap Unit) (name : String) :
    (names.foldl (fun m name => m.insert name ()) m).contains name = true ↔
      name ∈ names ∨ m.contains name = true := by
  induction names generalizing m with
  | nil => simp
  | cons first rest ih =>
    rw [List.foldl_cons, ih, NameMap.contains, NameMap.find?_insert, List.mem_cons]
    by_cases same : name = first
    · simp [same]
    · simp [same, NameMap.contains]

theorem numbered_declare (stem : String) (run : (declare declared).run .start = ((), s)) :
    Numbered declared stem [] s := by
  cases run
  refine ⟨fun name => ?_, fun k => ?_, inTurn_nil⟩
  · refine (contains_declare declared .empty name).trans (or_iff_left ?_)
    exact Bool.false_ne_true
  · exact iff_of_true (Nat.zero_le k) (fun _ member => (nomatch member))

/-- A generated name gives its stem the next number, and no other stem any. -/
theorem Numbered.freshName (numbered : Numbered declared stem numbers s) {name : String}
    (run : (freshName stem).run s = (name, t)) :
    ∃ k, name = indexedName stem k ∧ Numbered declared stem (numbers ++ [k]) t := by
  obtain ⟨k, searched, made⟩ := run_freshName s stem
  rw [made] at run
  cases run
  obtain ⟨⟨above, free⟩, least⟩ := searched.isLeast
  have next : IsNext declared stem numbers k := by
    refine ⟨⟨(numbered.counter k).mp above, ?_⟩, fun n here => least ⟨(numbered.counter n).mpr here.1, ?_⟩⟩
    · rw [← numbered.avoided, free]
      exact Bool.false_ne_true
    · rw [Bool.eq_false_iff, Ne, numbered.avoided]
      exact here.2
  refine ⟨k, rfl, numbered.avoided, fun n => ?_, numbered.inTurn.concat next⟩
  rw [NameMap.find?_insert, if_pos rfl, Option.getD_some, Nat.succ_le_iff]
  constructor
  · intro below m member
    rcases List.mem_append.mp member with earlier | last
    · exact Nat.lt_trans (next.1.1 m earlier) below
    · exact List.mem_singleton.mp last ▸ below
  · intro all
    exact all k (List.mem_append_right _ List.mem_cons_self)

theorem sameNumber_freshName (different : other ≠ stem) :
    SameNumber other s ((freshName stem).run s).2 := by
  obtain ⟨k, _, made⟩ := run_freshName s stem
  rw [made]
  exact ⟨rfl, by rw [NameMap.find?_insert, if_neg different]⟩

/-! ### Sequences of names -/

/-- The numbers that were given to a stem. -/
def numbersOf (stem : String) (given : List (String × Nat)) : List Nat :=
  (given.filter (·.1 = stem)).map (·.2)

theorem run_freshNames {given : List (String × Nat)}
    (numbered : ∀ stem, Numbered declared stem (numbersOf stem given) s) {stems names : List String}
    (run : (stems.mapM Session.freshName).run s = (names, t)) :
    ∃ added : List (String × Nat), added.map Prod.fst = stems ∧
      names = added.map (fun pair => indexedName pair.1 pair.2) ∧
      ∀ stem, Numbered declared stem (numbersOf stem (given ++ added)) t := by
  induction stems generalizing given s names with
  | nil =>
    obtain ⟨rfl, rfl⟩ := run_pure.mp run
    exact ⟨[], rfl, rfl, by simpa using numbered⟩
  | cons stem stems ih =>
    rw [List.mapM_cons] at run
    obtain ⟨name, u, first, run⟩ := run_bind.mp run
    obtain ⟨later, v, rest, run⟩ := run_bind.mp run
    obtain ⟨rfl, rfl⟩ := run_pure.mp run
    obtain ⟨k, rfl, next⟩ := (numbered stem).freshName first
    have after : ∀ other, Numbered declared other (numbersOf other (given ++ [(stem, k)])) u := by
      intro other
      by_cases same : stem = other
      · subst same
        simpa [numbersOf] using next
      · have kept : SameNumber other s u := by
          have kept := sameNumber_freshName (s := s) (Ne.symm same)
          rwa [first] at kept
        simpa [numbersOf, same] using (numbered other).same kept
    obtain ⟨added, stems, names, numbered⟩ := ih after rest
    refine ⟨(stem, k) :: added, by rw [List.map_cons, stems], by rw [List.map_cons, names], ?_⟩
    simpa using numbered

theorem nodup_of_numbersOf {given : List (String × Nat)} (each : ∀ stem, (numbersOf stem given).Nodup) :
    given.Nodup := by
  induction given with
  | nil => exact List.nodup_nil
  | cons pair rest ih =>
    refine List.nodup_cons.mpr ⟨fun member => ?_, ih fun stem => ?_⟩
    · have own := each pair.1
      rw [numbersOf, List.filter_cons_of_pos (by simp), List.map_cons, List.nodup_cons] at own
      exact own.1 (List.mem_map_of_mem (List.mem_filter.mpr ⟨member, by simp⟩))
    · exact (each stem).sublist (((List.sublist_cons_self pair rest).filter _).map _)

/-- The names that are generated once some are declared: each is the next one of its stem, no two are the
same, and none is declared. -/
structure GeneratedIn (declared : List String) (given : List (String × Nat)) (names : List String) : Prop where
  made : names = given.map fun pair => indexedName pair.1 pair.2
  next : ∀ before stem k after, given = before ++ (stem, k) :: after →
    IsNext declared stem (numbersOf stem before) k
  distinct : names.Nodup
  undeclared : ∀ name ∈ names, name ∉ declared

theorem generatedIn_freshNames (declared stems : List String) :
    ∃ given : List (String × Nat), given.map Prod.fst = stems ∧
      GeneratedIn declared given
        ((do declare declared; stems.mapM freshName : StateM Session (List String)).run .start).1 := by
  cases run : (do declare declared; stems.mapM freshName : StateM Session (List String)).run .start with
  | mk names t =>
    obtain ⟨_, u, first, rest⟩ := run_bind.mp run
    have start (stem : String) : Numbered declared stem (numbersOf stem []) u :=
      numbered_declare stem first
    obtain ⟨given, same, rfl, numbered⟩ := run_freshNames start rest
    refine ⟨given, same, rfl, ?_, ?_, ?_⟩
    · intro before stem k after split
      refine (numbered stem).inTurn (numbersOf stem before) k (numbersOf stem after) ?_
      simp [split, numbersOf]
    · refine List.Nodup.map ?_ (nodup_of_numbersOf fun stem => (numbered stem).inTurn.nodup)
      exact fun _ _ equal => Prod.ext_iff.mpr (indexedName_inj.mp equal)
    · intro name member
      obtain ⟨⟨stem, k⟩, listed, rfl⟩ := List.mem_map.mp member
      refine (numbered stem).inTurn.not_declared (List.mem_map.mpr ⟨(stem, k), ?_, rfl⟩)
      exact List.mem_filter.mpr ⟨listed, by simp⟩

end Articulation.Session
