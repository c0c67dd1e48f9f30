import Articulation.Proofs.Element.Conformance
import Mathlib.Data.List.Induction
/-! How a tree grows in pre-order. An element that is hung below a node with all it holds comes to the same
as its root hung there and the elements below it hung one after another; both a reader of markup and a
copy add elements in this order, so what they make is an element laid out. -/
namespace Articulation

variable {schema : Schema}

namespace ElementTree

variable {t : ElementTree}

theorem ext_nodes {u : ElementTree} (schema : t.schema = u.schema)
    (nodes : t.nodes.toList = u.nodes.toList) : t = u := by
  cases t
  cases u
  rw [mk.injEq]
  exact ⟨schema, Array.toList_inj.mp nodes⟩

/-- The nodes, with the next number listed below a parent. -/
def adopting (t : ElementTree) : Option Nat → Array Node
  | some parent =>
    t.nodes.modify parent fun node => { node with children := node.children ++ [t.size] }
  | none => t.nodes

/-- The tree with an element and all it holds behind its last node, below a parent if one is given. -/
def graft (t : ElementTree) (parent : Option Nat) (e : Element) : ElementTree :=
  { t with nodes := t.adopting parent ++ (layout parent t.size e).toArray }

theorem ofElement_eq_graft (schema : Schema) (e : Element) :
    ofElement schema e = (⟨schema, #[]⟩ : ElementTree).graft none e :=
  congrArg (ElementTree.mk schema) (@Array.empty_append _ (layout none 0 e).toArray).symm

theorem size_adopting (t : ElementTree) (parent : Option Nat) : (t.adopting parent).size = t.size := by
  cases parent with
  | none => rfl
  | some parent => exact Array.size_modify

theorem size_graft (t : ElementTree) (parent : Option Nat) (e : Element) :
    (t.graft parent e).size = t.size + e.size := by
  rw [size, graft, Array.size_append, size_adopting, List.size_toArray, length_layout]

theorem toList_graft (t : ElementTree) (parent : Option Nat) (e : Element) :
    (t.graft parent e).nodes.toList = (t.adopting parent).toList ++ layout parent t.size e := by
  rw [graft, Array.toList_append]

/-! ### One after another -/

theorem siblingNumbers_append (next : Nat) (before after : List Element) :
    siblingNumbers next (before ++ after) =
      siblingNumbers next before ++ siblingNumbers (next + Rose.sizeAll before) after := by
  induction before generalizing next with
  | nil => rfl
  | cons e rest ih =>
    rw [List.cons_append, siblingNumbers, ih, siblingNumbers, Rose.sizeAll, List.cons_append, Nat.add_assoc]

theorem layoutAll_append (parent : Option Nat) (next : Nat) (before after : List Element) :
    layoutAll parent next (before ++ after) =
      layoutAll parent next before ++ layoutAll parent (next + Rose.sizeAll before) after := by
  induction before generalizing next with
  | nil => rfl
  | cons e rest ih =>
    rw [List.cons_append, layoutAll, ih, layoutAll, Rose.sizeAll, List.append_assoc, Nat.add_assoc]

theorem modify_append_cons (f : Node → Node) (before after : List Node) (node : Node) {id : Nat}
    (here : id = before.length) :
    (before ++ node :: after).modify id f = before ++ f node :: after := by
  subst here
  exact List.modifyTailIdx_add _ 0 before (node :: after)

theorem length_adopting (t : ElementTree) (parent : Option Nat) :
    t.size = (t.adopting parent).toList.length := by
  rw [Array.length_toList, size_adopting]

/-- The last of the elements below one may be hung there afterwards. -/
theorem graft_snoc (t : ElementTree) (parent : Option Nat) (tag : Tag) (children : List Element)
    (e : Element) :
    t.graft parent (.node tag (children ++ [e])) =
      (t.graft parent (.node tag children)).graft (some t.size) e := by
  have sized := size_graft t parent (.node tag children)
  have here := length_adopting t parent
  refine ext_nodes rfl ?_
  rw [toList_graft, toList_graft, adopting, Array.toList_modify, toList_graft, sized]
  rw [layout, layout, modify_append_cons _ _ _ _ here, siblingNumbers_append, layoutAll_append, Rose.size]
  simp [siblingNumbers, layoutAll, Nat.add_assoc]

/-- An element is hung below a node, and then the elements below it below itself. -/
theorem graft_node (t : ElementTree) (parent : Option Nat) (tag : Tag) (children : List Element) :
    t.graft parent (.node tag children) =
      children.foldl (fun u e => u.graft (some t.size) e) (t.graft parent (.node tag [])) := by
  induction children using List.reverseRecOn with
  | nil => rfl
  | append_singleton before e ih => rw [graft_snoc, ih, List.foldl_append, List.foldl_cons, List.foldl_nil]

/-- What an element without children changes when it is hung below a node. -/
theorem node_graft_leaf (t : ElementTree) (parent : Nat) (tag : Tag) (id : Nat) :
    (t.graft (some parent) (.node tag [])).nodes[id]? =
      if id = t.size then some ⟨tag, some parent, []⟩ else
        if parent = id then t.nodes[id]?.map fun node => { node with children := node.children ++ [t.size] }
        else t.nodes[id]? := by
  rw [graft, Array.getElem?_append, size_adopting, adopting, Array.getElem?_modify]
  rcases Nat.lt_trichotomy id t.size with before | rfl | behind
  · rw [if_neg (Nat.ne_of_lt before), if_pos before]
  · rw [if_pos rfl, if_neg (Nat.lt_irrefl _), Nat.sub_self]
    rfl
  · have past : t.nodes[id]? = none := Array.getElem?_eq_none (Nat.le_of_lt behind)
    rw [if_neg (Nat.ne_of_gt behind), if_neg (Nat.not_lt_of_gt behind), past, Option.map_none, ite_self]
    exact Array.getElem?_eq_none (Nat.sub_pos_of_lt behind)

theorem push_eq_graft {parent : Nat} (inside : parent < t.size) (kind : String) :
    t.push parent kind = t.graft (some parent) (.node ⟨kind, .empty⟩ []) := by
  refine congrArg (ElementTree.mk t.schema) (Array.ext_getElem? fun id => ?_)
  exact (node_push inside kind id).trans (node_graft_leaf t parent ⟨kind, .empty⟩ id).symm

theorem insertAttribute_graft (t : ElementTree) (parent : Option Nat) (tag : Tag) (name : String)
    (value : AttributeValue) :
    (t.graft parent (.node tag [])).insertAttribute t.size name value =
      t.graft parent (.node { tag with attributes := tag.attributes.insert name value } []) := by
  refine ext_nodes rfl ?_
  rw [insertAttribute, Array.toList_modify, toList_graft, toList_graft]
  exact modify_append_cons _ _ _ _ (length_adopting t parent)

theorem tag_graft (t : ElementTree) (parent : Option Nat) (e : Element) {id : Nat} (before : id < t.size) :
    (t.graft parent e).tag id = t.tag id := by
  rw [tag, graft, Array.getElem?_append, size_adopting, if_pos before, tag]
  cases parent with
  | none => rfl
  | some parent =>
    rw [adopting, Array.getElem?_modify]
    split
    · cases t.nodes[id]? <;> rfl
    · rfl

theorem tag_graft_new (t : ElementTree) (parent : Option Nat) (e : Element) :
    (t.graft parent e).tag t.size = e.value := by
  cases e with
  | node tag children =>
    rw [ElementTree.tag, graft, Array.getElem?_append, size_adopting, if_neg (Nat.lt_irrefl _), Nat.sub_self]
    rfl

/-! ### Copies -/

theorem run_written {α β : Type} {w : Writing α} {f : α → Writing β} {u : ElementTree} {x : α}
    (first : w.run.run t = (.ok x, u)) : (w >>= f).run.run t = (f x).run.run u := by
  show StateT.run (ExceptT.run w >>= ExceptT.bindCont f) t = _
  rw [StateT.run_bind, first]
  rfl

/-- Attributes that are declared for an element are all set on it. -/
theorem run_setAttributes (parent : Option Nat) (kind : String) {entries : List (String × AttributeValue)}
    (typed : ∀ entry ∈ entries, t.schema.attributeType? kind entry.1 = some entry.2.type)
    (values : Attributes) :
    (entries.forM fun entry => Writing.setAttribute t.size entry.1 entry.2).run.run
        (t.graft parent (.node ⟨kind, values⟩ [])) =
      (.ok (), t.graft parent
        (.node ⟨kind, entries.foldl (fun a entry => a.insert entry.1 entry.2) values⟩ [])) := by
  induction entries generalizing values with
  | nil => rfl
  | cons entry rest ih =>
    obtain ⟨first, later⟩ := List.forall_mem_cons.mp typed
    have declared : checkAttribute t.schema kind entry.1 entry.2 = .ok () := checkAttribute_eq_ok.mpr first
    have written := run_setAttribute (t.graft parent (.node ⟨kind, values⟩ [])) t.size entry.1 entry.2
    rw [tag_graft_new, Rose.value_node, show (t.graft parent _).schema = t.schema from rfl, declared,
      insertAttribute_graft] at written
    exact (run_written written).trans (ih later _)

theorem run_copyAttributes (parent : Option Nat) {tag : Tag} (conforms : tag.Conforms t.schema) :
    (Writing.copyAttributes t.size tag).run.run (t.graft parent (.node ⟨tag.kind, .empty⟩ [])) =
      (.ok (), t.graft parent (.node tag [])) := by
  have copied := run_setAttributes parent tag.kind conforms.typed .empty
  rwa [Attributes.foldl_insert_listed conforms.ascending] at copied

/-- What a copy needs of a place for an element: it is in the tree, and the element may stand there. -/
structure Fits (source copy : ElementTree) (pending : Rose Nat × Nat) : Prop where
  inside : pending.2 < copy.size
  conforms : Element.Conforms copy.schema (pending.1.map source.tag)
  allowed : copy.schema.allowsChild (copy.tag pending.2).kind (source.tag pending.1.value).kind = true

theorem Fits.graft {source copy : ElementTree} {pending : Rose Nat × Nat} (fits : Fits source copy pending)
    (parent : Option Nat) (e : Element) : Fits source (copy.graft parent e) pending := by
  refine ⟨?_, fits.conforms, ?_⟩
  · rw [size_graft]
    exact Nat.lt_add_right _ fits.inside
  · rw [tag_graft _ _ _ fits.inside]
    exact fits.allowed

/-- An element given by numbers is hung like its root, and then like the numbers below it that a copy has
on its stack. -/
theorem graft_map_node (t : ElementTree) (parent : Option Nat) (tag : Nat → Tag) (number : Nat)
    (children : List (Rose Nat)) :
    t.graft parent ((Rose.node number children).map tag) =
      (children.map (·, t.size)).foldl (fun u p => u.graft (some p.2) (p.1.map tag))
        (t.graft parent (.node (tag number) [])) := by
  rw [Rose.map, Rose.mapAll_eq, graft_node, List.foldl_map, List.foldl_map]

/-- The elements on the stack are hung where they belong, one after another. -/
theorem run_copyPending {source copy : ElementTree} {pending : List (Rose Nat × Nat)}
    (fits : ∀ p ∈ pending, Fits source copy p) :
    (Writing.copyPending source pending).run.run copy =
      (.ok (), pending.foldl (fun u p => u.graft (some p.2) (p.1.map source.tag)) copy) := by
  induction pending using Writing.copyPending.induct source generalizing copy with
  | case1 =>
    rw [Writing.copyPending]
    rfl
  | case2 copied parent pending ih =>
    obtain ⟨first, later⟩ := List.forall_mem_cons.mp fits
    cases copied with
    | node number children =>
      have whole : (Rose.node number children).map source.tag =
          .node (source.tag number) (children.map (Rose.map source.tag)) := by
        rw [Rose.map, Rose.mapAll_eq]
      have conforms := first.conforms
      rw [whole] at conforms
      obtain ⟨here, below⟩ := Element.conforms_node.mp conforms
      -- the element itself is added and gets its attributes
      have checked : checkChild copy.schema (copy.tag parent).kind (source.tag number).kind = .ok () :=
        checkChild_eq_ok.mpr ⟨here.known, first.allowed⟩
      have added := run_add copy parent (source.tag number).kind
      rw [checked, push_eq_graft first.inside] at added
      have attributed := run_copyAttributes (some parent) here
      rw [Writing.copyPending]
      refine (run_written added).trans ((run_written attributed).trans ?_)
      -- then those below it take its place on the stack
      have next : ∀ p ∈ children.map (·, copy.size) ++ pending,
          Fits source (copy.graft (some parent) (.node (source.tag number) [])) p := by
        intro p member
        rcases List.mem_append.mp member with fresh | old
        · obtain ⟨child, listed, rfl⟩ := List.mem_map.mp fresh
          obtain ⟨allowed, inner⟩ := below _ (List.mem_map_of_mem listed)
          refine ⟨?_, inner, ?_⟩
          · rw [size_graft, Rose.size]
            omega
          · rw [tag_graft_new]
            rwa [Rose.value_map] at allowed
        · exact (later p old).graft _ _
      refine (ih copy.size next).trans ?_
      rw [List.foldl_append, List.foldl_cons, graft_map_node]
      rfl

/-- A copy of an element that conforms succeeds, and is the element laid out. -/
theorem deepCopy_of_conforms (conforms : t.Conforms) (id : Fin t.size) :
    t.deepCopy id = .ok (ofElement t.schema (t.element id)) := by
  have whole := conforms.element id
  unfold element at whole ⊢
  have value := value_shape t t.size id
  cases numbers : t.numbers id with
  | node number children =>
    rw [show t.shape t.size id = t.numbers id from rfl, numbers, Rose.value_node] at value
    rw [numbers, Rose.map, Rose.mapAll_eq, value] at whole
    obtain ⟨here, below⟩ := Element.conforms_node.mp whole
    let empty : ElementTree := ⟨t.schema, #[]⟩
    let root := empty.graft none (.node (t.tag id) [])
    have made : new t.schema (t.tag id).kind = .ok (withRoot t.schema (t.tag id).kind) := by
      rw [new, if_pos here.known]
    have attributed : (Writing.copyAttributes 0 (t.tag id)).run.run (withRoot t.schema (t.tag id).kind) =
        (.ok (), root) := run_copyAttributes (t := empty) none here
    have fits : ∀ p ∈ children.map (·, 0), Fits t root p := by
      intro p member
      obtain ⟨child, listed, rfl⟩ := List.mem_map.mp member
      obtain ⟨allowed, inner⟩ := below _ (List.mem_map_of_mem listed)
      rw [Rose.value_map] at allowed
      exact ⟨Nat.zero_lt_one, inner, allowed⟩
    have copied := (run_written (f := fun _ => Writing.copyPending t (children.map (·, 0)))
      attributed).trans (run_copyPending fits)
    rw [deepCopy, made, numbers]
    show written _ _ = _
    rw [written, Rose.children_node, copied, ofElement_eq_graft, graft_map_node, value]
    rfl

end ElementTree

end Articulation
