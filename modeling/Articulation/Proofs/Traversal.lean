import Mathlib.Data.List.Forall2
/-! Lists that are passed through step by step: traversals whose steps may fail or carry a state, and
partial functions on the elements of a list. -/
namespace Articulation

variable {α β γ ε σ : Type}

theorem bind_eq_ok {x : Except ε α} {f : α → Except ε β} {b : β} :
    x >>= f = .ok b ↔ ∃ a, x = .ok a ∧ f a = .ok b := by
  cases x with
  | error e => simp [bind, Except.bind]
  | ok a => simp [bind, Except.bind]

theorem map_eq_ok {x : Except ε α} {f : α → β} {b : β} :
    f <$> x = .ok b ↔ ∃ a, x = .ok a ∧ f a = b := by
  cases x with
  | error e => simp [Functor.map, Except.map]
  | ok a => simp [Functor.map, Except.map]

theorem map_eq_error {x : Except ε α} {f : α → β} {e : ε} : f <$> x = .error e ↔ x = .error e := by
  cases x with
  | error e => simp [Functor.map, Except.map]
  | ok a => simp [Functor.map, Except.map]

/-- A traversal succeeds exactly where every step does. -/
theorem mapM_eq_ok {f : α → Except ε β} {xs : List α} {ys : List β} :
    xs.mapM f = .ok ys ↔ List.Forall₂ (fun x y => f x = .ok y) xs ys := by
  constructor
  · intro mapped
    induction xs generalizing ys with
    | nil =>
      cases mapped
      exact .nil
    | cons x xs ih =>
      rw [List.mapM_cons] at mapped
      cases first : f x with
      | error e => simp only [first, bind, Except.bind] at mapped; contradiction
      | ok y =>
        cases rest : xs.mapM f with
        | error e => simp only [first, rest, bind, Except.bind] at mapped; contradiction
        | ok zs =>
          simp only [first, rest, bind, Except.bind] at mapped
          cases mapped
          exact .cons first (ih rest)
  · intro all
    induction all with
    | nil => rfl
    | cons first _ ih => rw [List.mapM_cons, first, ih]; rfl

theorem mapM_isOk {f : α → Except ε β} {xs : List α} :
    (∃ ys, xs.mapM f = .ok ys) ↔ ∀ x ∈ xs, ∃ y, f x = .ok y := by
  simp only [mapM_eq_ok]
  induction xs with
  | nil => simp
  | cons x xs ih => simp [List.forall₂_cons_left_iff, ih]

theorem forM_eq_ok {f : α → Except ε Unit} {xs : List α} :
    xs.forM f = .ok () ↔ ∀ x ∈ xs, f x = .ok () := by
  induction xs with
  | nil => simp [pure, Except.pure]
  | cons x xs ih =>
    rw [show (x :: xs).forM f = (f x >>= fun _ => xs.forM f) from rfl, bind_eq_ok,
      List.forall_mem_cons, ← ih]
    constructor
    · rintro ⟨_, first, rest⟩
      exact ⟨first, rest⟩
    · rintro ⟨first, rest⟩
      exact ⟨(), first, rest⟩

/-- A fold fails at the first step that fails, behind a part that succeeds. -/
theorem foldlM_eq_error {f : β → α → Except ε β} {xs : List α} {b : β} {e : ε}
    (failed : xs.foldlM f b = .error e) :
    ∃ before x after c, xs = before ++ x :: after ∧ before.foldlM f b = .ok c ∧ f c x = .error e := by
  induction xs generalizing b with
  | nil => cases failed
  | cons x xs ih =>
    rw [List.foldlM_cons] at failed
    cases first : f b x with
    | error cause =>
      rw [first] at failed
      cases failed
      exact ⟨[], x, xs, b, rfl, rfl, first⟩
    | ok c =>
      rw [first] at failed
      obtain ⟨before, y, after, d, rfl, run, last⟩ := ih failed
      refine ⟨x :: before, y, after, d, rfl, ?_, last⟩
      rw [List.foldlM_cons, first]
      exact run

/-! ### Two results side by side -/

/-- Two results agree if both fail, with the same error, or both succeed, with related values. -/
inductive Agree (R : α → β → Prop) : Except ε α → Except ε β → Prop
  | ok {a b} : R a b → Agree R (.ok a) (.ok b)
  | error (e : ε) : Agree R (.error e) (.error e)

namespace Agree

variable {R : α → β → Prop} {S : γ → σ → Prop} {x : Except ε α} {y : Except ε β}

theorem refl {R : α → α → Prop} (same : ∀ a, R a a) (x : Except ε α) : Agree R x x := by
  cases x with
  | error e => exact .error e
  | ok a => exact .ok (same a)

theorem bind {f : α → Except ε γ} {g : β → Except ε σ} (first : Agree R x y)
    (rest : ∀ a b, R a b → Agree S (f a) (g b)) : Agree S (x >>= f) (y >>= g) := by
  cases first with
  | ok related => exact rest _ _ related
  | error e => exact .error e

theorem foldlM {f : α → γ → Except ε α} {g : β → γ → Except ε β}
    (step : ∀ a b c, R a b → Agree R (f a c) (g b c)) (xs : List γ) {a : α} {b : β} (start : R a b) :
    Agree R (xs.foldlM f a) (xs.foldlM g b) := by
  induction xs generalizing a b with
  | nil => exact .ok start
  | cons c rest ih =>
    rw [List.foldlM_cons, List.foldlM_cons]
    exact (step a b c start).bind fun _ _ related => ih related

theorem exists_left (agree : Agree R x y) {b : β} (right : y = .ok b) : ∃ a, x = .ok a ∧ R a b := by
  cases agree with
  | ok related =>
    cases right
    exact ⟨_, rfl, related⟩
  | error e => contradiction

theorem eq_map {f : β → α} (agree : Agree (fun a b => a = f b) x y) : x = f <$> y := by
  cases agree with
  | ok same => exact congrArg Except.ok same
  | error e => rfl

end Agree

/-! ### Runs with a state -/

section

variable {m : StateM σ α} {f : α → StateM σ β} {s u : σ} {x : α} {y : β}

theorem run_bind : (m >>= f).run s = (y, u) ↔ ∃ x t, m.run s = (x, t) ∧ (f x).run t = (y, u) := by
  constructor
  · intro run
    exact ⟨_, _, rfl, run⟩
  · rintro ⟨x, t, first, run⟩
    show (f (m.run s).1).run (m.run s).2 = (y, u)
    rw [first]
    exact run

theorem run_pure {x y : α} : (pure x : StateM σ α).run s = (y, u) ↔ y = x ∧ u = s := by
  constructor
  · intro run
    cases run
    exact ⟨rfl, rfl⟩
  · rintro ⟨rfl, rfl⟩
    rfl

theorem run_map {g : α → β} : (g <$> m).run s = (y, u) ↔ ∃ x, m.run s = (x, u) ∧ y = g x := by
  constructor
  · intro run
    cases run
    exact ⟨_, rfl, rfl⟩
  · rintro ⟨x, first, rfl⟩
    show (g (m.run s).1, (m.run s).2) = (g x, u)
    rw [first]

end

/-- Where the value of every step is independent of the state, so is that of a traversal. -/
theorem mapM_run_fst {f : α → StateM σ β} {g : α → β}
    (same : ∀ x s, ((f x).run s).1 = g x) (xs : List α) (s : σ) :
    ((xs.mapM f).run s).1 = xs.map g := by
  induction xs generalizing s with
  | nil => rfl
  | cons x xs ih =>
    rw [List.mapM_cons, List.map_cons, ← same x s, ← ih ((f x).run s).2]
    rfl

/-- What each step of a traversal gives, whatever the state it starts from. -/
theorem forall₂_of_mapM {f : α → StateM σ β} {P : α → β → Prop} {s t : σ} {xs : List α}
    (step : ∀ x ∈ xs, ∀ {s y t}, (f x).run s = (y, t) → P x y) {ys : List β}
    (run : (xs.mapM f).run s = (ys, t)) : List.Forall₂ P xs ys := by
  induction xs generalizing s t ys with
  | nil =>
    obtain ⟨rfl, _⟩ := run_pure.mp run
    exact .nil
  | cons x xs ih =>
    rw [List.mapM_cons] at run
    obtain ⟨y, u, first, run⟩ := run_bind.mp run
    obtain ⟨zs, v, rest, run⟩ := run_bind.mp run
    obtain ⟨rfl, _⟩ := run_pure.mp run
    obtain ⟨here, later⟩ := List.forall_mem_cons.mp step
    exact .cons (here first) (ih later rest)

theorem foldlM_congr {m : Type → Type} [Monad m] {f g : β → α → m β} {xs : List α}
    (same : ∀ x ∈ xs, ∀ b, f b x = g b x) (b : β) : xs.foldlM f b = xs.foldlM g b := by
  induction xs generalizing b with
  | nil => rfl
  | cons x xs ih =>
    obtain ⟨first, same⟩ := List.forall_mem_cons.mp same
    rw [List.foldlM_cons, List.foldlM_cons, first]
    exact bind_congr (ih same)

/-! ### Lists side by side -/

theorem exists_of_forall₂ {R : α → β → Prop} {xs : List α} {ys : List β} (related : List.Forall₂ R xs ys)
    {x : α} (member : x ∈ xs) : ∃ y ∈ ys, R x y := by
  induction related with
  | nil => cases member
  | cons first _ ih =>
    rcases List.mem_cons.mp member with rfl | later
    · exact ⟨_, List.mem_cons_self, first⟩
    · obtain ⟨y, found, holds⟩ := ih later
      exact ⟨y, List.mem_cons_of_mem _ found, holds⟩

theorem exists_forall₂ {R : α → β → Prop} {xs : List α} (each : ∀ x ∈ xs, ∃ y, R x y) :
    ∃ ys, List.Forall₂ R xs ys := by
  induction xs with
  | nil => exact ⟨[], .nil⟩
  | cons x xs ih =>
    obtain ⟨⟨y, first⟩, each⟩ := List.forall_mem_cons.mp each
    obtain ⟨ys, rest⟩ := ih each
    exact ⟨y :: ys, .cons first rest⟩

theorem forall₂_trans {R : α → β → Prop} {S : β → γ → Prop} {T : α → γ → Prop} {xs : List α} {ys : List β}
    {zs : List γ} (composed : ∀ x ∈ xs, ∀ {y z}, R x y → S y z → T x z) (first : List.Forall₂ R xs ys)
    (second : List.Forall₂ S ys zs) : List.Forall₂ T xs zs := by
  induction first generalizing zs with
  | nil =>
    cases second
    exact .nil
  | cons here _ ih =>
    obtain ⟨composed, later⟩ := List.forall_mem_cons.mp composed
    cases second with
    | cons there rest => exact .cons (composed here there) (ih later rest)

theorem map_eq_of_forall₂ {f : α → γ} {g : β → γ} {xs : List α} {ys : List β}
    (same : List.Forall₂ (fun x y => f x = g y) xs ys) : xs.map f = ys.map g := by
  induction same with
  | nil => rfl
  | cons first _ ih => rw [List.map_cons, List.map_cons, first, ih]

theorem forall₂_of_map_eq {f : α → γ} {g : β → γ} {xs : List α} {ys : List β}
    (same : xs.map f = ys.map g) : List.Forall₂ (fun x y => f x = g y) xs ys := by
  have equal : List.Forall₂ (· = ·) (xs.map f) (ys.map g) := List.forall₂_eq_eq_eq (α := γ) ▸ same
  exact List.forall₂_map_right_iff.mp (List.forall₂_map_left_iff.mp equal)

theorem forall₂_singleton_left {R : α → β → Prop} {x : α} {ys : List β} :
    List.Forall₂ R [x] ys ↔ ∃ y, ys = [y] ∧ R x y := by
  simp [List.forall₂_cons_left_iff, and_comm]

theorem map_map_eq {f : α → γ} {g : β → γ} (h : γ → σ) {xs : List α} {ys : List β}
    (same : xs.map f = ys.map g) : xs.map (fun x => h (f x)) = ys.map fun y => h (g y) := by
  have mapped := congrArg (List.map h) same
  rwa [List.map_map, List.map_map] at mapped

theorem forall₂_and {R S : α → β → Prop} {xs : List α} {ys : List β} (first : List.Forall₂ R xs ys)
    (second : List.Forall₂ S xs ys) : List.Forall₂ (fun x y => R x y ∧ S x y) xs ys := by
  induction first with
  | nil => exact .nil
  | cons here _ ih =>
    cases second with
    | cons also rest => exact .cons ⟨here, also⟩ (ih rest)

theorem forall₂_filter_snoc {R : α → β → Prop} {p : α → Bool} {xs : List α} {ys : List β}
    (related : List.Forall₂ R (xs.filter p) ys) {x : α} {y : β} (taken : p x = true) (last : R x y) :
    List.Forall₂ R ((xs ++ [x]).filter p) (ys ++ [y]) := by
  rw [List.filter_append, List.filter_cons_of_pos taken]
  exact List.rel_append related (.cons last .nil)

theorem forall₂_filter_skip {R : α → β → Prop} {p : α → Bool} {xs : List α} {ys : List β}
    (related : List.Forall₂ R (xs.filter p) ys) {x : α} (left : p x = false) :
    List.Forall₂ R ((xs ++ [x]).filter p) ys := by
  rw [List.filter_append, List.filter_cons_of_neg (by simp [left]), List.filter_nil, List.append_nil]
  exact related

/-- A range holds every number at its own place. -/
theorem eq_of_getElem?_range {n i number : Nat} (found : (List.range n)[i]? = some number) : number = i := by
  obtain ⟨_, same⟩ := List.getElem?_eq_some_iff.mp found
  rw [← same, List.getElem_range]

/-! ### Partial functions -/

/-- The pairs of a list with another that follows it step by step are as good as the list. -/
theorem filterMap_zip {R : α → β → Prop} {xs : List α} {ys : List β}
    (step : List.Forall₂ R xs ys) {f : α × β → Option γ} {g : α → Option γ}
    (same : ∀ x y, R x y → f (x, y) = g x) : (xs.zip ys).filterMap f = xs.filterMap g := by
  induction step with
  | nil => rfl
  | cons first _ ih => rw [List.zip_cons_cons, List.filterMap_cons, List.filterMap_cons, same _ _ first, ih]

theorem forall₂_zipIdx {R : α → β → Prop} {xs : List α} {ys : List β}
    (step : List.Forall₂ R xs ys) : List.Forall₂ (fun x y => R x.1 y) xs.zipIdx ys := by
  rw [← List.zipIdx_map_fst 0 xs] at step
  exact List.forall₂_map_left_iff.mp step

/-- What is left without the missing elements. -/
theorem map_filterMap_congr {f : α → β} {xs ys : List (Option α)}
    (same : xs.map (Option.map f) = ys.map (Option.map f)) :
    (xs.filterMap id).map f = (ys.filterMap id).map f := by
  have left (xs : List (Option α)) : (xs.filterMap id).map f = (xs.map (Option.map f)).filterMap id := by
    rw [List.map_filterMap, List.filterMap_map]
    rfl
  rw [left, left, same]

/-- What a partial function keeps of a list comes in the order of the list. -/
theorem sublist_filterMap {f : α → Option β} {g : β → γ} {h : α → γ}
    (same : ∀ x y, f x = some y → g y = h x) (xs : List α) :
    ((xs.filterMap f).map g).Sublist (xs.map h) := by
  induction xs with
  | nil => exact .slnil
  | cons x xs ih =>
    rw [List.filterMap_cons, List.map_cons]
    cases found : f x with
    | none => exact ih.cons _
    | some y =>
      rw [List.map_cons, same x y found]
      exact ih.cons_cons _

/-- Elements that give nothing may be left out before or not. -/
theorem flatMap_filter {xs : List α} {p : α → Bool} {f : α → List β}
    (none : ∀ x ∈ xs, p x = false → f x = []) : (xs.filter p).flatMap f = xs.flatMap f := by
  induction xs with
  | nil => rfl
  | cons x xs ih =>
    obtain ⟨first, none⟩ := List.forall_mem_cons.mp none
    rw [List.filter_cons, List.flatMap_cons, ← ih none]
    split
    · rw [List.flatMap_cons]
    · rename_i left
      rw [first (by simpa using left), List.nil_append]

/-- A filter behind a partial function is a filter before it. -/
theorem filter_filterMap {xs : List α} {f : α → Option β} {p : β → Bool} {q : α → Bool}
    {g : β → γ} {h : α → γ}
    (same : ∀ x ∈ xs, f x = none ∧ q x = false ∨ ∃ y, f x = some y ∧ p y = q x ∧ g y = h x) :
    ((xs.filterMap f).filter p).map g = (xs.filter q).map h := by
  induction xs with
  | nil => rfl
  | cons x xs ih =>
    obtain ⟨first, same⟩ := List.forall_mem_cons.mp same
    rw [List.filterMap_cons]
    rcases first with ⟨none, dropped⟩ | ⟨y, some, kept, value⟩
    · rw [none, List.filter_cons_of_neg (by simp [dropped]), ih same]
    · rw [some, List.filter_cons, List.filter_cons, kept]
      split
      · rw [List.map_cons, List.map_cons, value, ih same]
      · exact ih same

end Articulation
