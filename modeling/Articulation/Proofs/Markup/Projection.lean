import Articulation.Proofs.Element.Arena
import Articulation.Proofs.Markup.Tree
import Articulation.Proofs.Rose.Pruning
import Articulation.Schema.Mjcf
/-! What a reader keeps of a document: the elements that stand, with all around them, where the schema
allows them, each with the attributes that the schema declares and whose texts read in their types. -/
namespace Articulation.Markup

variable {schema : Schema}

/-! ### Documents -/

/-- An element of a document without what it holds: its name, its attributes as they are written, and
whether it is written as a single tag where it holds nothing. -/
structure Heading where
  name : String
  attributes : List (String × List Char)
  short : Bool

/-- An element of a document. Its tokens are properly nested, and every properly nested text is the tokens
of some elements (`nested_iff`), so a document with one document element is one of these. -/
abbrev Source := Rose Heading

namespace Source

mutual
def tokens : Source → List Token
  | .node heading children =>
    if heading.short && children.isEmpty then [.empty heading.name (some heading.attributes)]
    else .opening heading.name (some heading.attributes) ::
      (tokensAll children ++ [.closing heading.name])

def tokensAll : List Source → List Token
  | [] => []
  | source :: rest => source.tokens ++ tokensAll rest
end

end Source

/-- The value of an attribute as it is written, if it is declared and reads in its type. -/
def valueOf? (schema : Schema) (kind : String) (entry : String × List Char) : Option AttributeValue :=
  (schema.attributeType? kind entry.1).bind fun type =>
    (unescape? entry.2).bind fun text => AttributeValue.read? type (String.ofList text)

namespace Heading

def tag (schema : Schema) (h : Heading) : Tag :=
  ⟨h.name, .ofList (h.attributes.filterMap fun entry =>
    (valueOf? schema h.name entry).map (entry.1, ·))⟩

/-- Attributes each once, without ampersands that begin no reference. -/
structure Clean (h : Heading) : Prop where
  distinct : NameMap.Distinct h.attributes
  unescapes : ∀ entry ∈ h.attributes, (unescape? entry.2).isSome = true

end Heading

/-- Whether the schema allows an element below another. -/
def allows (schema : Schema) (parent child : Heading) : Bool := schema.allowsChild parent.name child.name

/-- The part of a document that the schema allows. -/
def Source.projection (schema : Schema) (d : Source) : Element :=
  (d.prune (allows schema)).map (Heading.tag schema)

theorem Source.projection_node (heading : Heading) (children : List Source) :
    projection schema (.node heading children) = .node (heading.tag schema)
      ((children.filter fun child => allows schema heading child.value).map (projection schema)) := by
  rw [projection, Rose.prune, Rose.pruneAll_eq, Rose.map, Rose.mapAll_eq, List.map_map]
  rfl

/-! ### Attributes -/

theorem attributesOf?_eq {kind : String} {raw : List (String × List Char)}
    (unescapes : ∀ entry ∈ raw, (unescape? entry.2).isSome = true) (values : Attributes) :
    attributesOf? schema kind values raw = some ((raw.filterMap fun entry =>
      (valueOf? schema kind entry).map (entry.1, ·)).foldl
        (fun a entry => a.insert entry.1 entry.2) values) := by
  induction raw generalizing values with
  | nil => rfl
  | cons entry rest ih =>
    obtain ⟨name, raw⟩ := entry
    obtain ⟨first, later⟩ := List.forall_mem_cons.mp unescapes
    obtain ⟨text, unescaped⟩ := Option.isSome_iff_exists.mp first
    rw [attributesOf?, List.filterMap_cons, valueOf?]
    cases schema.attributeType? kind name with
    | none => exact ih later values
    | some type =>
      simp only [unescaped, Option.bind_some]
      cases AttributeValue.read? type (String.ofList text) with
      | none => exact ih later values
      | some value => exact ih later _

theorem tagOf_clean {h : Heading} (clean : h.Clean) :
    tagOf schema h.name (some h.attributes) = .ok (h.tag schema) := by
  rw [tagOf, Option.bind_some, attributesOf?_eq clean.unescapes]
  rfl

/-- An element has exactly the attributes that are declared and read, with the values read. -/
theorem Heading.find?_tag {h : Heading} (clean : h.Clean) (name : String) (value : AttributeValue) :
    (h.tag schema).attributes.find? name = some value ↔
      ∃ raw, (name, raw) ∈ h.attributes ∧ valueOf? schema h.name (name, raw) = some value := by
  have names := sublist_filterMap (f := fun entry : String × List Char =>
    (valueOf? schema h.name entry).map (entry.1, ·)) (g := Prod.fst) (h := Prod.fst)
    (fun entry read found => by
      obtain ⟨_, _, rfl⟩ := Option.map_eq_some_iff.mp found
      rfl) h.attributes
  have distinct := clean.distinct.sublist names
  have all := Attributes.find?_foldl_insert (a := .empty) distinct (fun _ _ _ none => by cases none) name
  rw [Heading.tag, Attributes.ofList, all, show Attributes.empty.find? name = none from rfl, Option.or_none,
    NameMap.lookup_eq_some distinct]
  constructor
  · intro member
    obtain ⟨⟨key, raw⟩, written, found⟩ := List.mem_filterMap.mp member
    obtain ⟨_, read, same⟩ := Option.map_eq_some_iff.mp found
    cases same
    exact ⟨raw, written, read⟩
  · rintro ⟨raw, written, read⟩
    exact List.mem_filterMap.mpr ⟨_, written, Option.map_eq_some_iff.mpr ⟨value, read, rfl⟩⟩

/-! ### Runs -/

section

variable {α β ε : Type} {f : β → α → Except ε β} {a b : β}

theorem foldlM_cons_ok {x : α} (first : f a x = .ok b) (rest : List α) :
    (x :: rest).foldlM f a = rest.foldlM f b := by
  rw [List.foldlM_cons, first]
  rfl

theorem foldlM_append_ok {xs : List α} (first : xs.foldlM f a = .ok b) (rest : List α) :
    (xs ++ rest).foldlM f a = rest.foldlM f b := by
  rw [List.foldlM_append, first]
  rfl

end

open Progress (step place close)

variable {p : Progress} {name : String} {raw : RawAttributes}

theorem step_opening {kept : Option Tag} (opened : p.opened schema name raw = .ok kept) :
    step schema p (.opening name raw) = .ok ⟨⟨name, kept.map (·, [])⟩ :: p.frames, p.document⟩ := by
  rw [step, opened]
  rfl

theorem step_empty {kept : Option Tag} (opened : p.opened schema name raw = .ok kept) :
    step schema p (.empty name raw) =
      .ok (kept.elim p fun tag => place (.node tag []) p.frames) := by
  rw [step, opened]
  cases kept <;> rfl

theorem step_closing (frame : Frame) (frames : List Frame) (document : Option Element) :
    step schema ⟨frame :: frames, document⟩ (.closing frame.name) = .ok (close frame frames) :=
  if_pos rfl

/-- An element that is written with two tags is opened, what it holds is read, and it is closed. -/
theorem run_element {heading : Heading} {children : List Source} {kept : Option Tag} {frame : Frame}
    {frames : List Frame} {document : Option Element}
    (opened : p.opened schema heading.name (some heading.attributes) = .ok kept)
    (below : (Source.tokensAll children).foldlM (step schema)
      ⟨⟨heading.name, kept.map (·, [])⟩ :: p.frames, p.document⟩ = .ok ⟨frame :: frames, document⟩)
    (same : frame.name = heading.name) :
    (Token.opening heading.name (some heading.attributes) ::
        (Source.tokensAll children ++ [.closing heading.name])).foldlM (step schema) p =
      .ok (close frame frames) := by
  rw [foldlM_cons_ok (step_opening opened), foldlM_append_ok below, ← same]
  exact foldlM_cons_ok (step_closing frame frames document) []

theorem run_unchanged {sources : List Source}
    (each : ∀ d ∈ sources, d.tokens.foldlM (step schema) p = .ok p) :
    (Source.tokensAll sources).foldlM (step schema) p = .ok p := by
  induction sources with
  | nil => rfl
  | cons d rest ih =>
    obtain ⟨first, each⟩ := List.forall_mem_cons.mp each
    rw [Source.tokensAll, foldlM_append_ok first]
    exact ih each

/-- An element that is skipped where it opens leaves no trace, whatever it holds. -/
theorem run_skipped (d : Source) {frames : List Frame}
    (skipped : ∀ raw, Progress.opened schema ⟨frames, none⟩ d.value.name raw = .ok none) :
    d.tokens.foldlM (step schema) ⟨frames, none⟩ = .ok ⟨frames, none⟩ := by
  induction d using Rose.induction generalizing frames with
  | step heading children ih =>
    have opened := skipped (some heading.attributes)
    rw [Rose.value_node] at opened
    rw [Source.tokens]
    split
    · exact foldlM_cons_ok (step_empty opened) []
    · have below := run_unchanged fun d member => ih d member fun _ =>
        (rfl : Progress.opened schema ⟨⟨heading.name, none⟩ :: frames, none⟩ _ _ = _)
      exact run_element opened below rfl

/-- The elements in one that is kept join it, if they may. -/
theorem run_children (name : String) (tag : Tag) (frames : List Frame) {children : List Source}
    (each : ∀ d ∈ children, ∀ around : List Frame,
      Progress.opened schema ⟨around, none⟩ d.value.name (some d.value.attributes) =
          .ok (some (d.value.tag schema)) →
        d.tokens.foldlM (step schema) ⟨around, none⟩ = .ok (place (d.projection schema) around))
    (clean : ∀ d ∈ children, d.value.Clean) (closed : List Element) :
    (Source.tokensAll children).foldlM (step schema) ⟨⟨name, some (tag, closed)⟩ :: frames, none⟩ =
      .ok ⟨⟨name, some (tag, (((children.filter fun d => schema.allowsChild tag.kind d.value.name).map
        (Source.projection schema)).reverse ++ closed))⟩ :: frames, none⟩ := by
  induction children generalizing closed with
  | nil => rfl
  | cons d rest ih =>
    obtain ⟨first, each⟩ := List.forall_mem_cons.mp each
    obtain ⟨proper, clean⟩ := List.forall_mem_cons.mp clean
    rw [Source.tokensAll]
    by_cases allowed : schema.allowsChild tag.kind d.value.name = true
    · have opened : Progress.opened schema ⟨⟨name, some (tag, closed)⟩ :: frames, none⟩ d.value.name
          (some d.value.attributes) = .ok (some (d.value.tag schema)) := by
        unfold Progress.opened
        simp only [allowed, if_true, tagOf_clean proper]
        rfl
      rw [foldlM_append_ok (first _ opened), List.filter_cons_of_pos (by simpa using allowed), List.map_cons,
        List.reverse_cons, List.append_assoc]
      exact ih each clean _
    · have skipped (raw : RawAttributes) : Progress.opened schema
          ⟨⟨name, some (tag, closed)⟩ :: frames, none⟩ d.value.name raw = .ok none := by
        unfold Progress.opened
        simp only [allowed]
        rfl
      rw [foldlM_append_ok (run_skipped d skipped), List.filter_cons_of_neg (by simpa using allowed)]
      exact ih each clean closed

/-- An element that is kept where it opens is in the end placed there with all it keeps. -/
theorem run_kept (d : Source) (clean : ∀ x ∈ d.subtrees, x.value.Clean) {frames : List Frame}
    (opened : Progress.opened schema ⟨frames, none⟩ d.value.name (some d.value.attributes) =
      .ok (some (d.value.tag schema))) :
    d.tokens.foldlM (step schema) ⟨frames, none⟩ = .ok (place (d.projection schema) frames) := by
  induction d using Rose.induction generalizing frames with
  | step heading children ih =>
    have inside (d : Source) (member : d ∈ children) : ∀ x ∈ d.subtrees, x.value.Clean := fun x deeper =>
      clean x (Rose.mem_subtrees.mpr (.inr ⟨d, member, deeper⟩))
    rw [Rose.value_node] at opened
    rw [Source.tokens, Source.projection_node]
    split
    · rename_i short
      obtain rfl : children = [] := List.isEmpty_iff.mp (Bool.and_eq_true_iff.mp short).2
      exact foldlM_cons_ok (step_empty opened) []
    · have below := run_children heading.name (heading.tag schema) frames
        (fun d member around => ih d member (inside d member))
        (fun d member => inside d member d (Rose.self_mem_subtrees d)) []
      refine (run_element opened below rfl).trans ?_
      simp only [close, List.append_nil, List.reverse_reverse]
      rfl

/-- A document whose document element has the expected name is read as the part that is allowed. -/
theorem Reading.element_tokens {d : Source} (clean : ∀ x ∈ d.subtrees, x.value.Clean)
    (root : d.value.name = schema.kind.rootElement) :
    (⟨d.tokens, true⟩ : Reading).element schema = .ok (d.projection schema) := by
  have opened : Progress.start.opened schema d.value.name (some d.value.attributes) =
      .ok (some (d.value.tag schema)) := by
    unfold Progress.opened Progress.start
    dsimp only [Option.isSome_none]
    rw [if_neg Bool.false_ne_true, if_neg (not_not_intro root),
      tagOf_clean (clean d (Rose.self_mem_subtrees d))]
    rfl
  have run := run_kept d clean opened
  rw [Reading.element, Progress.start, run]
  rfl

/-! ### What may be added -/

/-- The names of the open elements behind a token, the innermost first. -/
def unclosed (names : List String) : Token → Option (List String)
  | .opening name _ => some (name :: names)
  | .empty _ _ => some names
  | .closing name =>
    match names with
    | [] => none
    | innermost :: outer => if innermost = name then some outer else none

theorem unclosed_step {w v : Writer} {token : Token} (stepped : w.step schema token = .ok v) :
    unclosed (w.opened.map Prod.fst) token = some (v.opened.map Prod.fst) := by
  cases token with
  | opening name raw =>
    obtain ⟨entered, _, same⟩ := bind_eq_ok.mp stepped
    cases same
    rfl
  | empty name raw =>
    obtain ⟨entered, _, same⟩ := bind_eq_ok.mp stepped
    cases same
    rfl
  | closing name =>
    unfold Writer.step at stepped
    unfold unclosed
    cases around : w.opened with
    | nil => simp [around] at stepped
    | cons innermost outer =>
      simp only [around] at stepped
      split at stepped
      · rename_i same
        cases stepped
        exact if_pos same
      · contradiction

theorem unclosed_run {tokens : List Token} {w v : Writer}
    (read : tokens.foldlM (Writer.step schema) w = .ok v) :
    tokens.foldlM unclosed (w.opened.map Prod.fst) = some (v.opened.map Prod.fst) := by
  induction tokens generalizing w with
  | nil =>
    cases read
    rfl
  | cons token rest ih =>
    rw [List.foldlM_cons] at read ⊢
    obtain ⟨u, stepped, read⟩ := bind_eq_ok.mp read
    rw [unclosed_step stepped]
    exact ih read

/-- Where the innermost open element may not have an element of a name, it is skipped. -/
theorem opened_skipped {w : Writer} {innermost : String} {outer : List String} (related : Related schema w p)
    (names : w.opened.map Prod.fst = innermost :: outer)
    (forbidden : schema.allowsChild innermost name = false) :
    p.document = none ∧ ∀ raw, p.opened schema name raw = .ok none := by
  cases related with
  | outside document => cases names
  | inside _ written =>
    refine ⟨rfl, fun raw => ?_⟩
    cases written with
    | outside => cases names
    | skipped => rfl
    | kept tag children =>
      obtain rfl := (List.cons.inj names).1
      unfold Progress.opened
      simp [forbidden]

/-- Elements that may not stand where they are put into a text change nothing. -/
theorem Reading.tree_splice {before after : List Token} {innermost : String} {outer : List String} (d : Source)
    (inside : before.foldlM unclosed [] = some (innermost :: outer))
    (forbidden : schema.allowsChild innermost d.value.name = false) (complete : Bool) :
    (⟨before ++ (d.tokens ++ after), complete⟩ : Reading).tree schema =
      (⟨before ++ after, complete⟩ : Reading).tree schema := by
  have same : (before ++ (d.tokens ++ after)).foldlM (step schema) .start =
      (before ++ after).foldlM (step schema) .start := by
    have both := Agree.foldlM step_agree before (.outside none : Related schema .start .start)
    rw [List.foldlM_append, List.foldlM_append]
    cases read : before.foldlM (step schema) .start with
    | error fault => rfl
    | ok p =>
      obtain ⟨w, written, related⟩ := both.exists_left read
      have names := Option.some.inj ((unclosed_run written).symm.trans inside)
      obtain ⟨waiting, skipped⟩ := opened_skipped related names forbidden
      obtain ⟨frames, document⟩ := p
      cases waiting
      exact foldlM_append_ok (run_skipped d skipped) after
  rw [Reading.tree_eq, Reading.tree_eq, Reading.element, Reading.element, same]

theorem attributesOf?_append {kind : String} {entry : String × List Char}
    (unread : valueOf? schema kind entry = none)
    (harmless : schema.attributeType? kind entry.1 = none ∨ (unescape? entry.2).isSome = true)
    (before after : List (String × List Char)) (values : Attributes) :
    attributesOf? schema kind values (before ++ entry :: after) =
      attributesOf? schema kind values (before ++ after) := by
  induction before generalizing values with
  | nil =>
    rw [List.nil_append, List.nil_append, attributesOf?]
    rw [valueOf?] at unread
    cases declared : schema.attributeType? kind entry.1 with
    | none => rfl
    | some type =>
      obtain ⟨text, unescaped⟩ := Option.isSome_iff_exists.mp (harmless.resolve_left (by simp [declared]))
      rw [declared, unescaped, Option.bind_some, Option.bind_some] at unread
      simp only [unescaped, unread]
  | cons first rest ih => simp only [List.cons_append, attributesOf?, ih]

/-- The tags that open an element or stand for a whole one. -/
def IsStart (start : String → RawAttributes → Token) : Prop := start = .opening ∨ start = .empty

/-- An attribute that is not declared, or whose text does not read in its type, may be left out. -/
theorem Reading.tree_attribute {start : String → RawAttributes → Token} (starts : IsStart start)
    {entry : String × List Char} (unread : valueOf? schema name entry = none)
    (harmless : schema.attributeType? name entry.1 = none ∨ (unescape? entry.2).isSome = true)
    (first last : List (String × List Char)) (before after : List Token) (complete : Bool) :
    (⟨before ++ start name (some (first ++ entry :: last)) :: after, complete⟩ : Reading).tree schema =
      (⟨before ++ start name (some (first ++ last)) :: after, complete⟩ : Reading).tree schema := by
  have tag : tagOf schema name (some (first ++ entry :: last)) =
      tagOf schema name (some (first ++ last)) := by
    rw [tagOf, tagOf, Option.bind_some, Option.bind_some, attributesOf?_append unread harmless]
  have opened (p : Progress) : p.opened schema name (some (first ++ entry :: last)) =
      p.opened schema name (some (first ++ last)) := by
    unfold Progress.opened
    rw [tag]
  have stepped (p : Progress) : step schema p (start name (some (first ++ entry :: last))) =
      step schema p (start name (some (first ++ last))) := by
    rcases starts with rfl | rfl
    · rw [step, step, opened]
    · rw [step, step, opened]
  have same : (before ++ start name (some (first ++ entry :: last)) :: after).foldlM (step schema) .start =
      (before ++ start name (some (first ++ last)) :: after).foldlM (step schema) .start := by
    simp only [List.foldlM_append, List.foldlM_cons, stepped]
  rw [Reading.tree_eq, Reading.tree_eq, Reading.element, Reading.element, same]

/-! ### Properly nested texts -/

/-- What follows in a properly nested text are elements, and behind them, for each open element, its
closing tag and elements again. -/
theorem exists_sources {tokens : List Token} {names : List String}
    (proper : ∀ name raw, .opening name raw ∈ tokens ∨ .empty name raw ∈ tokens → raw.isSome = true)
    (nested : tokens.foldlM unclosed names = some []) :
    ∃ (inside : List Source) (behind : List (List Source)), behind.length = names.length ∧
      tokens = Source.tokensAll inside ++
        (names.zip behind).flatMap fun p => .closing p.1 :: Source.tokensAll p.2 := by
  induction tokens generalizing names with
  | nil =>
    cases nested
    exact ⟨[], [], rfl, rfl⟩
  | cons token rest ih =>
    have later := fun name raw => fun member : .opening name raw ∈ rest ∨ .empty name raw ∈ rest =>
      proper name raw (member.imp (List.mem_cons_of_mem _) (List.mem_cons_of_mem _))
    rw [List.foldlM_cons] at nested
    obtain ⟨next, stepped, nested⟩ := Option.bind_eq_some_iff.mp nested
    obtain ⟨inside, behind, length, same⟩ := ih later nested
    cases token with
    | opening name raw =>
      cases stepped
      obtain ⟨attributes, rfl⟩ := Option.isSome_iff_exists.mp (proper name raw (.inl List.mem_cons_self))
      obtain _ | ⟨first, behind⟩ := behind
      · cases length
      · refine ⟨.node ⟨name, attributes, false⟩ inside :: first, behind, Nat.succ.inj length, ?_⟩
        rw [same, Source.tokensAll, Source.tokens]
        simp
    | empty name raw =>
      cases stepped
      obtain ⟨attributes, rfl⟩ := Option.isSome_iff_exists.mp (proper name raw (.inr List.mem_cons_self))
      exact ⟨.node ⟨name, attributes, true⟩ [] :: inside, behind, length, congrArg (_ :: ·) same⟩
    | closing name =>
      unfold unclosed at stepped
      cases names with
      | nil => contradiction
      | cons innermost outer =>
        dsimp only at stepped
        split at stepped
        · rename_i closed
          cases stepped
          refine ⟨[], inside :: behind, congrArg Nat.succ length, ?_⟩
          rw [same, closed]
          rfl
        · contradiction

theorem unclosed_tokensAll {sources : List Source}
    (each : ∀ d ∈ sources, ∀ names, d.tokens.foldlM unclosed names = some names) (names : List String) :
    (Source.tokensAll sources).foldlM unclosed names = some names := by
  induction sources with
  | nil => rfl
  | cons d rest ih =>
    obtain ⟨first, each⟩ := List.forall_mem_cons.mp each
    rw [Source.tokensAll, List.foldlM_append, first names]
    exact ih each

theorem unclosed_tokens (d : Source) (names : List String) : d.tokens.foldlM unclosed names = some names := by
  induction d using Rose.induction generalizing names with
  | step heading children ih =>
    rw [Source.tokens]
    split
    · rfl
    · simp [unclosed, unclosed_tokensAll ih]

/-- A text is properly nested exactly if it is a sequence of elements. -/
theorem nested_iff {tokens : List Token}
    (proper : ∀ name raw, .opening name raw ∈ tokens ∨ .empty name raw ∈ tokens → raw.isSome = true) :
    tokens.foldlM unclosed [] = some [] ↔ ∃ sources, Source.tokensAll sources = tokens := by
  constructor
  · intro nested
    obtain ⟨sources, _, _, same⟩ := exists_sources proper nested
    exact ⟨sources, by simpa using same.symm⟩
  · rintro ⟨sources, rfl⟩
    exact unclosed_tokensAll (fun d _ => unclosed_tokens d) []

/-! ### Reading -/

/-- A tree holds what the schema allows of a document: its nodes are numbered in the order of the document;
they are the elements that, like all elements around them, may stand below their parents, with the same
elements around them; and each has the attributes that are declared for it and read in their types. -/
structure Projects (schema : Schema) (d : Source) (t : ElementTree) : Prop where
  schema_eq : t.schema = schema
  numbered : 0 :: t.descendants 0 = List.range t.size
  root : t.root = d.projection schema
  elements : t.root.trails [] =
    ((d.trails []).filter (Rose.linked (allows schema))).map (List.map (Heading.tag schema))
  attributes : ∀ x ∈ d.subtrees, ∀ name value, (x.value.tag schema).attributes.find? name = some value ↔
    ∃ raw, (name, raw) ∈ x.value.attributes ∧ valueOf? schema x.value.name (name, raw) = some value

/-- A document whose document element has the expected name is read as the part of it that the schema
allows. So it makes no difference if elements are put in, at any depth, where the schema does not allow
them, or attributes that are not declared or do not read in their types. -/
theorem Reading.tree_projects (schema : Schema) {d : Source} (clean : ∀ x ∈ d.subtrees, x.value.Clean)
    (root : d.value.name = schema.kind.rootElement) :
    ∃ t, (⟨d.tokens, true⟩ : Reading).tree schema = .ok t ∧ Projects schema d t ∧
      (∀ before after innermost outer, ∀ e : Source, before ++ after = d.tokens →
        before.foldlM unclosed [] = some (innermost :: outer) →
        schema.allowsChild innermost e.value.name = false →
        (⟨before ++ (e.tokens ++ after), true⟩ : Reading).tree schema = .ok t) ∧
      (∀ before after start name first last entry, IsStart start →
        before ++ start name (some (first ++ last)) :: after = d.tokens →
        valueOf? schema name entry = none →
        schema.attributeType? name entry.1 = none ∨ (unescape? entry.2).isSome = true →
        (⟨before ++ start name (some (first ++ entry :: last)) :: after, true⟩ : Reading).tree schema =
          .ok t) := by
  have read : (⟨d.tokens, true⟩ : Reading).tree schema = .ok (.ofElement schema (d.projection schema)) := by
    rw [Reading.tree_eq, Reading.element_tokens clean root]
    rfl
  refine ⟨_, read, ⟨rfl, ?_, ?_, ?_, ?_⟩, ?_, ?_⟩
  · exact ElementTree.descendants_ofElement schema _
  · exact ElementTree.root_ofElement schema _
  · rw [ElementTree.root_ofElement, Source.projection, ← Rose.trails_prune]
    · exact Rose.trails_map _ _ []
    · rfl
  · exact fun x member => Heading.find?_tag (clean x member)
  · intro before after innermost outer e whole inside forbidden
    rw [Reading.tree_splice e inside forbidden, whole, read]
  · intro before after start name first last entry starts whole unread harmless
    rw [Reading.tree_attribute starts unread harmless, whole, read]

def Heading.of (name : String) (attributes : List (String × String)) : Heading :=
  ⟨name, attributes.map fun entry => (entry.1, entry.2.toList), true⟩

/-- A document with one body, of whose attributes only the name is read. -/
def trunk : Source :=
  .node (.of "mujoco" []) [.node (.of "worldbody" [])
    [.node (.of "body" [("name", "trunk"), ("pos", "0 high 1")]) []]]

/-- An element that the schema does not know, with a body inside. -/
def sensors : Source := .node (.of "sensors" []) [.node (.of "body" [("name", "lost")]) []]

/-- The body stays where it is if the unknown element comes before it. -/
theorem Reading.tree_projects_trunk :
    ∃ t, (⟨trunk.tokens, true⟩ : Reading).tree Schema.mjcf = .ok t ∧ Projects Schema.mjcf trunk t ∧
      t.root.preorder =
        [⟨"mujoco", .empty⟩, ⟨"worldbody", .empty⟩, ⟨"body", .ofList [("name", .string "trunk")]⟩] ∧
      (⟨trunk.tokens.take 2 ++ (sensors.tokens ++ trunk.tokens.drop 2), true⟩ : Reading).tree Schema.mjcf =
        .ok t := by
  have clean : ∀ x ∈ trunk.subtrees, (x.value.attributes.map Prod.fst).Nodup ∧
      ∀ entry ∈ x.value.attributes, (unescape? entry.2).isSome = true := by decide +kernel
  obtain ⟨t, read, projects, spliced, _⟩ :=
    Reading.tree_projects Schema.mjcf (fun x member => ⟨(clean x member).1, (clean x member).2⟩) rfl
  refine ⟨t, read, projects, ?_, ?_⟩
  · rw [projects.root]
    decide +kernel
  · exact spliced _ _ "worldbody" ["mujoco"] sensors (List.take_append_drop 2 trunk.tokens)
      (by decide +kernel) (by decide +kernel)

end Articulation.Markup
