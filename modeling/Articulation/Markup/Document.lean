import Articulation.Element.Tree
import Articulation.Markup.Reference
import Articulation.Markup.Token
/-! The element of a marked-up document. An element that the schema does not allow below its parent is
skipped with all it holds, and so is an attribute that the schema does not declare or whose text does
not read in its type. Only ill-formed markup is an error. -/
namespace Articulation.Markup

def attributesOf? (schema : Schema) (kind : String) :
    Attributes → List (String × List Char) → Option Attributes
  | values, [] => some values
  | values, (name, raw) :: rest =>
    match schema.attributeType? kind name with
    | none => attributesOf? schema kind values rest
    | some type =>
      match unescape? raw with
      | none => none
      | some text =>
        match AttributeValue.read? type (String.ofList text) with
        | some value => attributesOf? schema kind (values.insert name value) rest
        | none => attributesOf? schema kind values rest

def tagOf (schema : Schema) (kind : String) (attributes : RawAttributes) : Except MarkupFault Tag :=
  match attributes.bind (attributesOf? schema kind .empty) with
  | some values => .ok ⟨kind, values⟩
  | none => .error .illFormed

/-- An open element: its name in the text and, unless it is skipped, what it holds so far, the
children backwards. -/
structure Frame where
  name : String
  kept : Option (Tag × List Element)

/-- Where a reader stands: the open elements, the innermost first, and the document element once it is
closed. -/
structure Progress where
  frames : List Frame
  document : Option Element

namespace Progress

def start : Progress := ⟨[], none⟩

/-- What is kept of an element that opens here, if it is not skipped. -/
def opened (schema : Schema) (p : Progress) (name : String) (attributes : RawAttributes) :
    Except MarkupFault (Option Tag) :=
  match p.frames with
  | [] =>
    if p.document.isSome then .error (.secondRoot name)
    else if name ≠ schema.kind.rootElement then
      .error (.unexpectedRoot schema.kind.rootElement name)
    else some <$> tagOf schema name attributes
  | ⟨_, none⟩ :: _ => .ok none
  | ⟨_, some (parent, _)⟩ :: _ =>
    if schema.allowsChild parent.kind name then some <$> tagOf schema name attributes
    else .ok none

/-- Hands a closed element to the one it stands in; outside all others it is the document element. -/
def place (e : Element) : List Frame → Progress
  | ⟨name, some (tag, children)⟩ :: frames => ⟨⟨name, some (tag, e :: children)⟩ :: frames, none⟩
  | frames => ⟨frames, some e⟩

def close (frame : Frame) (frames : List Frame) : Progress :=
  match frame.kept with
  | none => ⟨frames, none⟩
  | some (tag, children) => place (.node tag children.reverse) frames

def step (schema : Schema) (p : Progress) : Token → Except MarkupFault Progress
  | .opening name attributes => do
    let tag ← p.opened schema name attributes
    return { p with frames := ⟨name, tag.map (·, [])⟩ :: p.frames }
  | .empty name attributes => do
    let tag ← p.opened schema name attributes
    match tag with
    | none => return p
    | some tag => return place (.node tag []) p.frames
  | .closing name =>
    match p.frames with
    | [] => .error .illFormed
    | frame :: frames => if frame.name = name then .ok (close frame frames) else .error .illFormed

def finish (p : Progress) : Except MarkupFault Element :=
  match p.frames with
  | frame :: _ => .error (.unclosed (frame.kept.map fun kept => kept.1.kind))
  | [] =>
    match p.document with
    | some e => .ok e
    | none => .error .noRoot

end Progress

def Reading.element (schema : Schema) (reading : Reading) : Except MarkupFault Element := do
  let progress ← reading.tokens.foldlM (Progress.step schema) .start
  if !reading.complete then throw .illFormed
  progress.finish

end Articulation.Markup

namespace Articulation

def Element.read (schema : Schema) (text : String) : Except MarkupFault Element :=
  (Markup.Reading.of text).element schema

end Articulation
