import Articulation.Markup.Document
/-! The element tree of a marked-up document, written while its tokens are read. What is kept and what
is skipped is decided as for its element. -/
namespace Articulation.Markup

/-- Sets the attributes of an element that the schema declares for it, where their texts read in their
types. -/
def insertAttributes (t : ElementTree) (id : Nat) :
    List (String × List Char) → Except MarkupFault ElementTree
  | [] => .ok t
  | (name, raw) :: rest =>
    match t.schema.attributeType? (t.tag id).kind name with
    | none => insertAttributes t id rest
    | some type =>
      match unescape? raw with
      | none => .error .illFormed
      | some text =>
        match AttributeValue.read? type (String.ofList text) with
        | some value => insertAttributes (t.insertAttribute id name value) id rest
        | none => insertAttributes t id rest

def insertRaw (t : ElementTree) (id : Nat) : RawAttributes → Except MarkupFault ElementTree
  | some attributes => insertAttributes t id attributes
  | none => .error .illFormed

/-- Where a writer stands: the open elements, the innermost first, each with its name in the text and,
unless it is skipped, its number; and the tree once its root is opened. -/
structure Writer where
  opened : List (String × Option Nat)
  tree : Option ElementTree

namespace Writer

def start : Writer := ⟨[], none⟩

/-- The number of an element that opens here, unless it is skipped, and the tree with it. -/
def enter (schema : Schema) (w : Writer) (name : String) (attributes : RawAttributes) :
    Except MarkupFault (Option Nat × Option ElementTree) :=
  match w.opened, w.tree with
  | [], some _ => .error (.secondRoot name)
  | [], none =>
    if name ≠ schema.kind.rootElement then
      .error (.unexpectedRoot schema.kind.rootElement name)
    else do
      let t ← insertRaw (.withRoot schema name) 0 attributes
      return (some 0, some t)
  | (_, some parent) :: _, some t =>
    if schema.allowsChild (t.tag parent).kind name then do
      let grown ← insertRaw (t.push parent name) t.size attributes
      return (some t.size, some grown)
    else .ok (none, w.tree)
  | _ :: _, _ => .ok (none, w.tree)

def step (schema : Schema) (w : Writer) : Token → Except MarkupFault Writer
  | .opening name attributes => do
    let (id, tree) ← w.enter schema name attributes
    return ⟨(name, id) :: w.opened, tree⟩
  | .empty name attributes => do
    let (_, tree) ← w.enter schema name attributes
    return { w with tree }
  | .closing name =>
    match w.opened with
    | [] => .error .illFormed
    | innermost :: outer => if innermost.1 = name then .ok ⟨outer, w.tree⟩ else .error .illFormed

def finish (w : Writer) : Except MarkupFault ElementTree :=
  match w.opened, w.tree with
  | (_, id) :: _, tree =>
    .error (.unclosed (id.bind fun id => tree.map fun t => (t.tag id).kind))
  | [], some t => .ok t
  | [], none => .error .noRoot

end Writer

def Reading.tree (schema : Schema) (reading : Reading) : Except MarkupFault ElementTree := do
  let writer ← reading.tokens.foldlM (Writer.step schema) .start
  if !reading.complete then throw .illFormed
  writer.finish

end Articulation.Markup

namespace Articulation

def ElementTree.read (schema : Schema) (text : String) : Except MarkupFault ElementTree :=
  (Markup.Reading.of text).tree schema

end Articulation
