import Articulation.Toml.Number
import Articulation.Toml.Text
/-! TOML documents: keys, values, headers and the tables they build. -/
namespace Articulation.Toml

/-- Containers and dotted names nest less deep than this. -/
def depthLimit : Nat := 80

namespace Scan

def isBare (c : Char) : Bool := c.isAlphanum || c = '-' || c = '_'

def bareName : Scan String := do
  let name ← many isBare
  require (!name.isEmpty)
  return String.ofList name

/-- Names with points between them, each with blanks around it. -/
def key : Scan (List String) := do
  let names ← separated '.' (blanks *> (quoted <|> literal <|> bareName) <* blanks)
  require (names.length < depthLimit)
  return names

def boolean : Scan Toml :=
  (text ['t', 'r', 'u', 'e'] *> pure (.boolean true))
    <|> (text ['f', 'a', 'l', 's', 'e'] *> pure (.boolean false))

def inlineTable (entries : List (List String × Toml)) : Scan Toml :=
  let built? := entries.foldlM
    (fun (built : Entries) (entry : List String × Toml) =>
      match entry.1.reverse with
      | [] => none
      | name :: path => built.addValue path.reverse name entry.2 .declared) []
  match built? with
  | some built => pure (.table (Item.entriesToToml built))
  | none => fail

/-- A value whose containers nest less deep than `depth`. -/
def value : Nat → Scan Toml
  | 0 => fail
  | depth + 1 =>
    let array : Scan Toml := do
      char '['
      require (0 < depth)
      let items ← optional do
        let items ← separated ',' (space *> value depth <* space)
        discard (optional (char ','))
        return items
      space
      char ']'
      return .array (items.getD [])
    let table : Scan Toml := do
      char '\x7b'
      require (0 < depth)
      let entries ← optional (separated ',' do
        let names ← key
        char '='
        blanks
        let entry ← value depth
        blanks
        return (names, entry))
      blanks
      char '\x7d'
      inlineTable (entries.getD [])
    (Toml.string <$> string) <|> boolean <|> number <|> array <|> table

end Scan

/-- A document being read: its tables and the path of the one that takes the next entries. -/
structure Draft where
  root : Entries
  current : List String

namespace Draft

def start : Draft := ⟨[], []⟩

def opened (d : Draft) (declare : String → Entries → Option Entries) (names : List String) :
    Option Draft :=
  match names.reverse with
  | [] => none
  | name :: path =>
    (Entries.descend .implied (fun _ inner => declare name inner) path.reverse .declared d.root).map
      fun root => ⟨root, names⟩

def add (d : Draft) (names : List String) (value : Toml) : Option Draft :=
  match names.reverse with
  | [] => none
  | name :: path =>
    (Entries.descend .implied (fun own inner => inner.addValue path.reverse name value own) d.current
      .declared d.root).map fun root => { d with root }

end Draft

namespace Scan

def ofOption {α : Type} : Option α → Scan α
  | some value => pure value
  | none => fail

def header (d : Draft) : Scan Draft := do
  let (declare, names) ←
    (do
      text ['[', '[']
      let names ← key
      text [']', ']']
      return (Entries.declareMember, names))
    <|> (do
      char '['
      let names ← key
      char ']'
      return (Entries.declareTable, names))
  lineEnd
  ofOption (d.opened declare names)

def entry (d : Draft) : Scan Draft := do
  let names ← key
  char '='
  blanks
  let read ← value depthLimit
  lineEnd
  ofOption (d.add names read)

/-- The lines of a document, of which there are at most `fuel`. -/
def lines (d : Draft) : Nat → Scan Draft
  | 0 => endOfText *> pure d
  | fuel + 1 => do
    blanks
    match ← next with
    | none => return d
    | some '#' =>
      comment
      lineBreak <|> endOfText
      lines d fuel
    | some '\n' | some '\r' =>
      lineBreak
      lines d fuel
    | some '[' => lines (← header d) fuel
    | some _ => lines (← entry d) fuel

end Scan

/-- Reads a document. A byte order mark at its start does not belong to it. -/
def read? (text : String) : Option Toml :=
  let cs := match text.toList with
    | '\uFEFF' :: cs => cs
    | cs => cs
  match (Scan.lines .start (cs.length + 1)).run cs with
  | some (draft, []) => some (.table (Item.entriesToToml draft.root))
  | _ => none

end Articulation.Toml
