import Articulation.Element.Basic
import Articulation.Proofs.Body.Reframing
import Articulation.Proofs.Naming.Fresh
/-! Names of elements. Those that declare none are given numbers of a stem, in the order of the elements. Such a
name is declared nowhere, and as the stem tells it from what has names of other stems, it is the name of one
body in a model and of nothing else there. -/
namespace Articulation

open Session (Numbered indexedName)

variable {stem : String}

/-- The names of elements in order: those that declare none are given the numbers of a stem. -/
inductive Labels (stem : String) : List Element → List String → List Nat → Prop
  | nil : Labels stem [] [] []
  | declared {e es name names numbers} : e.name? = some name → Labels stem es names numbers →
      Labels stem (e :: es) (name :: names) numbers
  | numbered {e es k names numbers} : e.name? = none → Labels stem es names numbers →
      Labels stem (e :: es) (indexedName stem k :: names) (k :: numbers)

namespace Labels

variable {elements others : List Element} {names further : List String} {numbers added : List Nat}

theorem append (first : Labels stem elements names numbers) (second : Labels stem others further added) :
    Labels stem (elements ++ others) (names ++ further) (numbers ++ added) := by
  induction first with
  | nil => exact second
  | declared given _ ih => exact .declared given ih
  | numbered missing _ ih => exact .numbered missing ih

/-- What no element declares is as often a name as its number was given. -/
theorem count_eq (labels : Labels stem elements names numbers) {k : Nat}
    (undeclared : ∀ e ∈ elements, e.name? ≠ some (indexedName stem k)) :
    names.count (indexedName stem k) = numbers.count k := by
  induction labels with
  | nil => rfl
  | declared given _ ih =>
    obtain ⟨first, rest⟩ := List.forall_mem_cons.mp undeclared
    rw [List.count_cons_of_ne fun same => first (given.trans (congrArg some same)), ih rest]
  | @numbered e es n names numbers missing _ ih =>
    rw [List.count_cons, List.count_cons, ih (List.forall_mem_cons.mp undeclared).2]
    simp [Session.indexedName_inj]

theorem of_nameOr {e : Element} {declared : List String} {s t : Session} {name : String}
    (numbered : Numbered declared stem numbers s) (run : (Session.nameOr e.name? stem).run s = (name, t)) :
    ∃ added, Labels stem [e] [name] added ∧ Numbered declared stem (numbers ++ added) t := by
  cases given : e.name? with
  | none =>
    rw [given] at run
    obtain ⟨k, rfl, next⟩ := numbered.freshName run
    exact ⟨[k], .numbered given .nil, next⟩
  | some label =>
    rw [given] at run
    obtain ⟨rfl, rfl⟩ := run_pure.mp run
    exact ⟨[], .declared given .nil, by rwa [List.append_nil]⟩

end Labels

/-- The names are those of the elements, after numbers that were given before. -/
def NamedFor (declared : List String) (stem : String) (numbers : List Nat) (elements : List Element)
    (names : List String) (t : Session) : Prop :=
  ∃ added, Labels stem elements names added ∧ Numbered declared stem (numbers ++ added) t

namespace NamedFor

variable {declared names further : List String} {numbers added : List Nat} {elements others : List Element}
  {s t : Session}

theorem append (labels : Labels stem elements names added)
    (later : NamedFor declared stem (numbers ++ added) others further t) :
    NamedFor declared stem numbers (elements ++ others) (names ++ further) t := by
  obtain ⟨more, rest, numbered⟩ := later
  exact ⟨added ++ more, labels.append rest, by rwa [← List.append_assoc]⟩

theorem of_same (numbered : Numbered declared stem numbers s) (same : Session.SameNumber stem s t) :
    NamedFor declared stem numbers [] [] t :=
  ⟨[], .nil, by simpa using numbered.same same⟩

theorem mapM {α : Type} {f : Element → StateM Session α} {name : α → String}
    (each : ∀ {e numbers s x t}, Numbered declared stem numbers s → (f e).run s = (x, t) →
      NamedFor declared stem numbers [e] [name x] t)
    (numbered : Numbered declared stem numbers s) {xs : List α} (run : (elements.mapM f).run s = (xs, t)) :
    NamedFor declared stem numbers elements (xs.map name) t := by
  induction elements generalizing s numbers xs with
  | nil =>
    obtain ⟨rfl, rfl⟩ := run_pure.mp run
    exact of_same numbered (.refl _)
  | cons e rest ih =>
    rw [List.mapM_cons] at run
    obtain ⟨x, u, first, run⟩ := run_bind.mp run
    obtain ⟨ys, v, later, run⟩ := run_bind.mp run
    obtain ⟨rfl, rfl⟩ := run_pure.mp run
    obtain ⟨added, labels, numbered⟩ := each numbered first
    exact append labels (ih numbered later)

end NamedFor

/-! ### Other names -/

/-- The element's own name, if it has one, is among the declared ones. -/
def Declares (declared : List String) (e : Element) : Prop := ∀ name, e.name? = some name → name ∈ declared

theorem mem_descendants {root child x : Element} (hanging : child ∈ root.children) (inside : x ∈ child.subtrees) :
    x ∈ root.descendants := by
  rw [Element.descendants_eq]
  refine List.mem_flatMap.mpr ⟨child, hanging, ?_⟩
  rwa [← Element.subtrees_eq_cons]

theorem declares_of_mem {root e : Element} (member : e ∈ root.descendants) :
    Declares root.declaredNames e :=
  fun _ given => List.mem_filterMap.mpr ⟨e, member, given⟩

/-- A name that is declared, or that has another stem. -/
def Foreign (declared : List String) (stem name : String) : Prop :=
  name ∈ declared ∨ ∃ other k, other ≠ stem ∧ name = indexedName other k

theorem Foreign.ne {declared : List String} {name : String} (foreign : Foreign declared stem name) {k : Nat}
    (undeclared : indexedName stem k ∉ declared) : name ≠ indexedName stem k := by
  rintro rfl
  rcases foreign with listed | ⟨other, n, different, same⟩
  · exact undeclared listed
  · exact different (Session.indexedName_inj.mp same).1.symm

theorem foreign_nameOr {declared : List String} {own : Option String} {other name : String} {s t : Session}
    (known : ∀ name, own = some name → name ∈ declared) (different : other ≠ stem)
    (run : (Session.nameOr own other).run s = (name, t)) : Foreign declared stem name := by
  cases own with
  | some label =>
    obtain ⟨rfl, rfl⟩ := run_pure.mp run
    exact .inl (known _ rfl)
  | none =>
    obtain ⟨k, _, made⟩ := Session.run_freshName s other
    cases made.symm.trans run
    exact .inr ⟨other, k, different, rfl⟩

/-- The names of everything on the link are alike. -/
structure Link.Bears (P : String → Prop) (link : Link) : Prop where
  joints : ∀ j ∈ link.joints, P j.name
  colliders : ∀ c ∈ link.colliders, P c.name
  drawables : ∀ d ∈ link.drawables, P d.name

theorem Link.Bears.imp {P Q : String → Prop} {link : Link} (bears : link.Bears P)
    (implies : ∀ name, P name → Q name) : link.Bears Q :=
  ⟨fun j listed => implies _ (bears.joints j listed), fun c listed => implies _ (bears.colliders c listed),
    fun d listed => implies _ (bears.drawables d listed)⟩

theorem Link.Reframed.bears {P : String → Prop} {before after : Link} (reframed : before.Reframed after)
    (bears : before.Bears P) : after.Bears P := by
  obtain ⟨f, colliders, drawables⟩ := reframed.shapes
  constructor
  · intro j listed
    have moved : j.unplaced ∈ before.joints.map Joint.unplaced := by
      rw [← reframed.joints]
      exact List.mem_map_of_mem listed
    obtain ⟨earlier, listed, same⟩ := List.mem_map.mp moved
    rw [show j.name = earlier.name from (congrArg Joint.name same).symm]
    exact bears.joints earlier listed
  · intro c listed
    rw [colliders] at listed
    obtain ⟨earlier, member, rfl⟩ := List.mem_map.mp listed
    exact bears.colliders earlier member
  · intro d listed
    rw [drawables] at listed
    obtain ⟨earlier, member, rfl⟩ := List.mem_map.mp listed
    exact bears.drawables earlier member

theorem Body.Reframed.bears {P : String → Prop} {before after : Body} (reframed : before.Reframed after)
    (bears : ∀ link ∈ before.preorder, link.Bears P) : ∀ body ∈ after.bodies, body.link.Bears P := by
  intro body member
  rw [Body.bodies_eq] at member
  obtain ⟨link, listed, moved⟩ := exists_of_forall₂ reframed.preorder.flip (List.mem_map_of_mem member)
  exact moved.bears (bears link listed)

/-! ### Models -/

/-- A name of one body in the model and of nothing else in it. An actuator may be called after what it refers
to, whether that is there or not. -/
structure Robot.Unmistakable (robot : Robot) (declared referred : List String) (name : String) : Prop where
  undeclared : name ∉ declared
  once : robot.bodyNames.count name = 1
  parts : ∀ body ∈ robot.linkage.bodies, body.link.Bears (· ≠ name)
  actuators : ∀ a ∈ robot.actuators, a.name = name → name ∈ referred

/-- The names are those of elements in order, and the numbered ones are the names of nothing else. -/
def Robot.FreshlyNamed (robot : Robot) (declared referred : List String) (stem : String)
    (elements : List Element) (names : List String) : Prop :=
  ∃ numbers, Labels stem elements names numbers ∧ Session.InTurn declared stem numbers ∧
    ∀ k ∈ numbers, robot.Unmistakable declared referred (indexedName stem k)

theorem Robot.freshlyNamed {robot : Robot} {elements : List Element} {declared referred names : List String}
    {numbers : List Nat} (labels : Labels stem elements names numbers)
    (inTurn : Session.InTurn declared stem numbers) (bodies : robot.bodyNames.Perm names)
    (known : ∀ e ∈ elements, Declares declared e)
    (parts : ∀ body ∈ robot.linkage.bodies, body.link.Bears (Foreign declared stem))
    (actuators : ∀ a ∈ robot.actuators, Foreign declared stem a.name ∨ a.name ∈ referred) :
    robot.FreshlyNamed declared referred stem elements names := by
  refine ⟨numbers, labels, inTurn, fun k drawn => ?_⟩
  have undeclared := inTurn.not_declared drawn
  refine ⟨undeclared, ?_, ?_, ?_⟩
  · rw [bodies.count_eq, labels.count_eq fun e listed given => undeclared (known e listed _ given)]
    exact List.count_eq_one_of_mem inTurn.nodup drawn
  · exact fun body member => (parts body member).imp fun name foreign => foreign.ne undeclared
  · intro a listed same
    rcases actuators a listed with foreign | refers
    · exact absurd same (foreign.ne undeclared)
    · exact same ▸ refers

end Articulation
