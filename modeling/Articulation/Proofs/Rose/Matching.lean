import Articulation.Proofs.Traversal
import Articulation.Rose.Basic
/-! Trees of one shape whose values are related node by node. -/
namespace Articulation.Rose

variable {α β γ : Type}

inductive Matches (R : α → β → Prop) : Rose α → Rose β → Prop where
  | node {a b as bs} : R a b → List.Forall₂ (Matches R) as bs → Matches R (.node a as) (.node b bs)

variable {R : α → β → Prop} {t : Rose α} {u : Rose β}

namespace Matches

theorem value (same : Matches R t u) : R t.value u.value := by
  cases same
  assumption

theorem children (same : Matches R t u) : List.Forall₂ (Matches R) t.children u.children := by
  cases same
  assumption

theorem of_parts (value : R t.value u.value) (children : List.Forall₂ (Matches R) t.children u.children) :
    Matches R t u := by
  cases t
  cases u
  exact .node value children

/-- What follows for the children of a node, where it is known of each by itself. -/
theorem children_imp {S : Rose α → Rose β → Prop} (same : Matches R t u)
    (each : ∀ child ∈ t.children, ∀ {other}, Matches R child other → S child other) :
    List.Forall₂ S t.children u.children := by
  have both := (List.forall₂_and_left t.children u.children).mpr ⟨fun _ member => member, same.children⟩
  exact both.imp fun child _ pair => each child pair.1 pair.2

theorem refl {R : α → α → Prop} (same : ∀ a, R a a) (t : Rose α) : Matches R t t := by
  induction t using Rose.induction with
  | step value children ih => exact .node (same value) (List.forall₂_same.mpr ih)

theorem imp {S : α → β → Prop} (implies : ∀ {a b}, R a b → S a b) (same : Matches R t u) :
    Matches S t u := by
  induction t using Rose.induction generalizing u with
  | step value children ih => exact of_parts (implies same.value) (same.children_imp ih)

theorem trans {S : β → γ → Prop} {T : α → γ → Prop} {v : Rose γ} (first : Matches R t u)
    (second : Matches S u v) (composed : ∀ {a b c}, R a b → S b c → T a c) : Matches T t v := by
  induction t using Rose.induction generalizing u v with
  | step value children ih =>
    refine of_parts (composed first.value second.value) ?_
    exact forall₂_trans (S := Matches S) (fun child member _ _ here there => ih child member here there)
      first.children second.children

theorem map_iff {α' β' : Type} {R : α' → β' → Prop} {f : α → α'} {g : β → β'} :
    Matches R (t.map f) (u.map g) ↔ Matches (fun a b => R (f a) (g b)) t u := by
  induction t using Rose.induction generalizing u with
  | step value children ih =>
    have below : ∀ bs : List (Rose β), List.Forall₂ (Matches R) (children.map (map f)) (bs.map (map g)) ↔
        List.Forall₂ (Matches fun a b => R (f a) (g b)) children bs := by
      intro bs
      rw [List.forall₂_map_left_iff, List.forall₂_map_right_iff]
      constructor
      · intro same
        have both := (List.forall₂_and_left _ _).mpr ⟨fun _ member => member, same⟩
        exact both.imp fun child _ pair => (ih child pair.1).mp pair.2
      · intro same
        have both := (List.forall₂_and_left _ _).mpr ⟨fun _ member => member, same⟩
        exact both.imp fun child _ pair => (ih child pair.1).mpr pair.2
    constructor
    · intro same
      have here := same.value
      have deeper := same.children
      rw [value_map, value_map] at here
      rw [children_map, children_map] at deeper
      exact of_parts here ((below _).mp deeper)
    · intro same
      refine of_parts ?_ ?_
      · rw [value_map, value_map]
        exact same.value
      · rw [children_map, children_map]
        exact (below _).mpr same.children

theorem map_left {α' : Type} {R : α' → β → Prop} {f : α → α'} (same : Matches R (t.map f) u) :
    Matches (fun a b => R (f a) b) t u := by
  induction t using Rose.induction generalizing u with
  | step value children ih =>
    have here := same.value
    have below := same.children
    rw [value_map] at here
    rw [children_map, List.forall₂_map_left_iff] at below
    have each := (List.forall₂_and_left _ _).mpr ⟨fun _ member => member, below⟩
    exact of_parts here (each.imp fun child _ pair => ih child pair.1 pair.2)

theorem and {S : α → β → Prop} (first : Matches R t u) (second : Matches S t u) :
    Matches (fun a b => R a b ∧ S a b) t u := by
  induction t using Rose.induction generalizing u with
  | step value children ih =>
    refine of_parts ⟨first.value, second.value⟩ ?_
    have both := forall₂_and first.children second.children
    have each := (List.forall₂_and_left _ _).mpr ⟨fun _ member => member, both⟩
    exact each.imp fun child _ pair => ih child pair.1 pair.2.1 pair.2.2

/-- Trees that become the same have one shape, and their values become the same. -/
theorem of_map_eq {f : α → γ} {g : β → γ} (same : t.map f = u.map g) :
    Matches (fun a b => f a = g b) t u :=
  map_iff.mp (same ▸ refl (fun _ => rfl) (t.map f))

/-- Nodes at the same position in pre-order are related. -/
theorem preorder (same : Matches R t u) : List.Forall₂ R t.preorder u.preorder := by
  induction t using Rose.induction generalizing u with
  | step value children ih =>
    rw [preorder_eq, preorder_eq]
    exact .cons same.value (List.rel_flatten (List.forall₂_map_left_iff.mpr
      (List.forall₂_map_right_iff.mpr (same.children_imp ih))))

theorem exists_pairs_all {trees : List (Rose α)} {others : List (Rose β)}
    (each : List.Forall₂ (fun t u => ∃ pairs : Rose (α × β), pairs.map Prod.fst = t ∧ pairs.map Prod.snd = u)
      trees others) :
    ∃ pairs : List (Rose (α × β)), pairs.map (Rose.map Prod.fst) = trees ∧
      pairs.map (Rose.map Prod.snd) = others := by
  induction each with
  | nil => exact ⟨[], rfl, rfl⟩
  | cons first _ rest =>
    obtain ⟨pair, rfl, rfl⟩ := first
    obtain ⟨pairs, rfl, rfl⟩ := rest
    exact ⟨pair :: pairs, rfl, rfl⟩

/-- Two trees of one shape are those of the first and of the second parts of a tree of pairs. -/
theorem exists_pairs (same : Matches R t u) :
    ∃ pairs : Rose (α × β), pairs.map Prod.fst = t ∧ pairs.map Prod.snd = u := by
  induction t using Rose.induction generalizing u with
  | step value children ih =>
    obtain ⟨pairs, first, second⟩ := exists_pairs_all (same.children_imp ih)
    cases u with
    | node other others =>
      refine ⟨.node (value, other) pairs, ?_, ?_⟩
      · rw [map, mapAll_eq, first]
        rfl
      · rw [map, mapAll_eq, second]
        rfl

end Matches

end Articulation.Rose
