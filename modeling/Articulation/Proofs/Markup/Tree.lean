import Articulation.Markup.Tree
import Articulation.Proofs.Element.Growth
/-! The tree that is written while markup is read is the element read from it, laid out in pre-order, and
the two readers fail with the same errors. After each token the tree holds the open elements that are
kept, each with the elements closed in it so far. -/
namespace Articulation.Markup

open ElementTree (graft)

variable {schema : Schema} {t : ElementTree}

/-! ### One element -/

theorem insertAttributes_graft (parent : Option Nat) (kind : String) (values : Attributes)
    (raw : List (String × List Char)) :
    insertAttributes (t.graft parent (.node ⟨kind, values⟩ [])) t.size raw =
      match attributesOf? t.schema kind values raw with
      | some result => .ok (t.graft parent (.node ⟨kind, result⟩ []))
      | none => .error .illFormed := by
  have here (values : Attributes) : (t.graft parent (.node ⟨kind, values⟩ [])).schema.attributeType?
      ((t.graft parent (.node ⟨kind, values⟩ [])).tag t.size).kind = t.schema.attributeType? kind := by
    rw [ElementTree.tag_graft_new]
    rfl
  fun_induction attributesOf? t.schema kind values raw with
  | case1 => rfl
  | case2 values name raw rest undeclared ih =>
    rw [insertAttributes, here, undeclared]
    exact ih
  | case3 values name raw rest type declared spoiled =>
    rw [insertAttributes, here, declared]
    simp only [spoiled]
  | case4 values name raw rest type declared text unescaped value read ih =>
    rw [insertAttributes, here, declared]
    simp only [unescaped, read, ElementTree.insertAttribute_graft]
    exact ih
  | case5 values name raw rest type declared text unescaped unread ih =>
    rw [insertAttributes, here, declared]
    simp only [unescaped, unread]
    exact ih

/-- The attributes of an element that was just hung below another come to those of its tag. -/
theorem insertRaw_agree (parent : Option Nat) (kind : String) (raw : RawAttributes) :
    Agree (fun u tag => tag.kind = kind ∧ u = t.graft parent (.node tag []))
      (insertRaw (t.graft parent (.node ⟨kind, .empty⟩ [])) t.size raw) (tagOf t.schema kind raw) := by
  cases raw with
  | none => exact .error _
  | some items =>
    rw [insertRaw, insertAttributes_graft, tagOf, Option.bind_some]
    cases attributesOf? t.schema kind .empty items with
    | none => exact .error _
    | some values => exact .ok ⟨rfl, rfl⟩

/-! ### Open elements -/

/-- The tree that is written when these elements are open: each element that is kept is of the type that its
name says and hangs below the one around it with the elements closed in it so far, and only what stands in
a kept element is kept. -/
inductive Written (schema : Schema) : List Frame → List (String × Option Nat) → ElementTree → Prop
  | outside : Written schema [] [] ⟨schema, #[]⟩
  | kept {frames opened t} (tag : Tag) (children : List Element) :
    Written schema frames opened t → (∀ outer ∈ opened.head?, outer.2.isSome) →
    Written schema (⟨tag.kind, some (tag, children)⟩ :: frames) ((tag.kind, some t.size) :: opened)
      (t.graft (opened.head?.bind Prod.snd) (.node tag children.reverse))
  | skipped {frames opened t} (name : String) : frames ≠ [] → Written schema frames opened t →
    Written schema (⟨name, none⟩ :: frames) ((name, none) :: opened) t

theorem Written.schema_eq {frames : List Frame} {opened : List (String × Option Nat)}
    (written : Written schema frames opened t) : t.schema = schema := by
  induction written with
  | outside => rfl
  | kept _ _ _ _ ih => exact ih
  | skipped _ _ _ ih => exact ih

/-- The two readers stand at the same place. Outside all elements there is the document element, if it was
closed; inside, it is not yet there. -/
inductive Related (schema : Schema) : Writer → Progress → Prop
  | outside (document : Option Element) :
    Related schema ⟨[], document.map (.ofElement schema)⟩ ⟨[], document⟩
  | inside {frames opened t} : frames ≠ [] → Written schema frames opened t →
    Related schema ⟨opened, some t⟩ ⟨frames, none⟩

/-- An element that is closed joins those closed in the element around it. -/
theorem related_close {frame : Frame} {frames : List Frame} {entry : String × Option Nat}
    {opened : List (String × Option Nat)} (written : Written schema (frame :: frames) (entry :: opened) t) :
    entry.1 = frame.name ∧ Related schema ⟨opened, some t⟩ (Progress.close frame frames) := by
  cases written with
  | skipped name around outer => exact ⟨rfl, .inside around outer⟩
  | kept tag children outer within =>
    refine ⟨rfl, ?_⟩
    cases outer with
    | outside =>
      have whole := @Related.outside schema (some (.node tag children.reverse))
      rwa [Option.map_some, ElementTree.ofElement_eq_graft] at whole
    | skipped => exact absurd (within _ rfl) Bool.false_ne_true
    | kept outer siblings around inside =>
      refine .inside (List.cons_ne_nil _ _) ?_
      have grown := Written.kept outer (.node tag children.reverse :: siblings) around inside
      rwa [List.reverse_cons, ElementTree.graft_snoc] at grown

/-! ### Steps -/

/-- What is known of an element that opens here, before it is among the open ones. -/
def Entered (schema : Schema) (w : Writer) (p : Progress) (name : String)
    (entered : Option Nat × Option ElementTree) (tag : Option Tag) : Prop :=
  ∃ t, entered.2 = some t ∧ p.document = none ∧
    Written schema (⟨name, tag.map (·, [])⟩ :: p.frames) ((name, entered.1) :: w.opened) t

theorem enter_agree {w : Writer} {p : Progress} (related : Related schema w p) (name : String)
    (raw : RawAttributes) :
    Agree (Entered schema w p name) (w.enter schema name raw) (p.opened schema name raw) := by
  cases related with
  | outside document =>
    cases document with
    | some e => exact .error _
    | none =>
      unfold Writer.enter Progress.opened
      dsimp only [Option.map_none, Option.isSome_none]
      by_cases root : name = schema.kind.rootElement
      · rw [if_neg (not_not_intro root), if_neg Bool.false_ne_true, if_neg (not_not_intro root)]
        rw [← bind_pure_comp]
        refine (insertRaw_agree (t := ⟨schema, #[]⟩) none name raw).bind fun u tag ⟨kind, same⟩ => .ok ?_
        subst kind same
        exact ⟨_, rfl, rfl, .kept tag [] .outside (fun _ none => nomatch none)⟩
      · rw [if_pos root, if_neg Bool.false_ne_true, if_pos root]
        exact .error _
  | @inside frames opened t within written =>
    cases written with
    | outside => contradiction
    | skipped outer inner around =>
      exact .ok ⟨t, rfl, rfl, .skipped name (List.cons_ne_nil _ _) (.skipped outer inner around)⟩
    | @kept frames opened t tag children around kept =>
      have whole := Written.kept tag children around kept
      unfold Writer.enter Progress.opened
      simp only [ElementTree.tag_graft_new, Rose.value_node]
      by_cases allowed : schema.allowsChild tag.kind name = true
      · have inside : t.size < (t.graft (opened.head?.bind Prod.snd) (.node tag children.reverse)).size := by
          rw [ElementTree.size_graft, Rose.size]
          omega
        have attributes := insertRaw_agree
          (t := t.graft (opened.head?.bind Prod.snd) (.node tag children.reverse)) (some t.size) name raw
        rw [whole.schema_eq] at attributes
        rw [if_pos allowed, if_pos allowed, ElementTree.push_eq_graft inside, ← bind_pure_comp]
        refine attributes.bind fun u own ⟨kind, same⟩ => .ok ?_
        subst kind same
        exact ⟨_, rfl, rfl, .kept own [] whole fun _ head => by cases head; rfl⟩
      · rw [if_neg allowed, if_neg allowed]
        exact .ok ⟨_, rfl, rfl, .skipped name (List.cons_ne_nil _ _) whole⟩

theorem step_agree (w : Writer) (p : Progress) (token : Token) (related : Related schema w p) :
    Agree (Related schema) (w.step schema token) (p.step schema token) := by
  cases token with
  | opening name raw =>
    refine (enter_agree related name raw).bind fun ⟨id, tree⟩ tag ⟨t, same, document, written⟩ => .ok ?_
    cases same
    rw [document]
    exact .inside (List.cons_ne_nil _ _) written
  | empty name raw =>
    -- an empty element is one that is closed at once
    refine (enter_agree related name raw).bind fun ⟨id, tree⟩ tag ⟨t, same, document, written⟩ => ?_
    have closed := (related_close written).2
    obtain ⟨frames, _⟩ := p
    cases same
    cases document
    cases tag with
    | none => exact .ok closed
    | some tag => exact .ok closed
  | closing name =>
    cases related with
    | outside document => exact .error _
    | @inside frames opened t within written =>
      cases frames with
      | nil => contradiction
      | cons frame frames =>
        cases opened with
        | nil => cases written
        | cons entry opened =>
          obtain ⟨same, closed⟩ := related_close written
          unfold Writer.step Progress.step
          dsimp only
          rw [same]
          split
          · exact .ok closed
          · exact .error _

theorem finish_agree {w : Writer} {p : Progress} (related : Related schema w p) :
    Agree (fun t e => t = .ofElement schema e) w.finish p.finish := by
  cases related with
  | outside document =>
    cases document with
    | none => exact .error _
    | some e => exact .ok rfl
  | inside within written =>
    cases written with
    | outside => contradiction
    | skipped name outer inner => exact .error _
    | kept tag children outer within =>
      unfold Writer.finish Progress.finish
      simp only [Option.bind_some, Option.map_some, ElementTree.tag_graft_new, Rose.value_node]
      exact .error _

/-- The tree written token by token is that of the element that is read. -/
theorem Reading.tree_eq (schema : Schema) (reading : Reading) :
    reading.tree schema = (ElementTree.ofElement schema) <$> reading.element schema := by
  refine Agree.eq_map ?_
  have start : Related schema .start .start := .outside none
  refine (Agree.foldlM step_agree reading.tokens start).bind fun w p related => ?_
  cases reading.complete with
  | false => exact .error _
  | true => exact finish_agree related

end Articulation.Markup

namespace Articulation

theorem ElementTree.read_eq (schema : Schema) (text : String) :
    ElementTree.read schema text = (ElementTree.ofElement schema) <$> Element.read schema text :=
  Markup.Reading.tree_eq schema (.of text)

end Articulation
