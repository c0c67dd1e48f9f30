/-! TOML values, and the tables of a document while it is read. A table remembers how it came about,
since that decides who may still add to it. -/
namespace Articulation

inductive Toml where
  | string (text : String)
  | integer (value : Int)
  | float (value : Float)
  | boolean (value : Bool)
  /-- A date, a time or both; which one is not kept. -/
  | datetime
  | array (items : List Toml)
  | table (entries : List (String × Toml))

namespace Toml

inductive Origin where
  /-- It has a header of its own or is written inline. -/
  | declared
  /-- It was named on the way to the table of a header. -/
  | implied
  /-- It was named on the way to a value. -/
  | dotted
deriving DecidableEq, Repr

inductive Item where
  | leaf (value : Toml)
  | table (origin : Origin) (entries : List (String × Item))
  /-- A table for each header in double brackets. -/
  | tables (members : List (List (String × Item)))

abbrev Entries := List (String × Item)

namespace Item

mutual
def toToml : Item → Toml
  | leaf value => value
  | table _ entries => .table (entriesToToml entries)
  | tables members => .array (membersToToml members)

def entriesToToml : List (String × Item) → List (String × Toml)
  | [] => []
  | (name, item) :: rest => (name, item.toToml) :: entriesToToml rest

def membersToToml : List (List (String × Item)) → List Toml
  | [] => []
  | entries :: rest => .table (entriesToToml entries) :: membersToToml rest
end

end Item

namespace Entries

/-- The entries with the item of a name put in the place of the old one, or behind all others. -/
def put (entries : Entries) (name : String) (item : Item) : Entries :=
  if entries.any fun entry => entry.1 == name then
    entries.map fun entry => if entry.1 == name then (name, item) else entry
  else entries ++ [(name, item)]

/-- Changes the table at the end of a path. Tables that are not there yet come about as `origin`. A
list of tables is entered at its last member. A path of dotted names does not lead into a table that
is declared elsewhere. -/
def descend (origin : Origin) (change : Origin → Entries → Option Entries) :
    List String → Origin → Entries → Option Entries
  | [], own, entries => change own entries
  | name :: path, _, entries =>
    match entries.lookup name with
    | none =>
      (descend origin change path origin []).map fun inner => entries.put name (.table origin inner)
    | some (.leaf _) => none
    | some (.table own inner) =>
      if origin = .dotted ∧ own = .declared then none
      else (descend origin change path own inner).map fun inner => entries.put name (.table own inner)
    | some (.tables members) =>
      match members.reverse with
      | [] => none
      | last :: before =>
        (descend origin change path .declared last).map fun inner =>
          entries.put name (.tables (before.reverse ++ [inner]))

def add (name : String) (item : Item) (entries : Entries) : Option Entries :=
  if (entries.lookup name).isSome then none else some (entries ++ [(name, item)])

/-- Adds a value at the end of a path of dotted names. Only the last table of names that dots brought
about, or the table itself if there is no path, takes a value. -/
def addValue (path : List String) (name : String) (value : Toml) (own : Origin)
    (entries : Entries) : Option Entries :=
  descend .dotted
    (fun reached inner =>
      if path.isEmpty || reached = .dotted then add name (.leaf value) inner else none)
    path own entries

/-- Declares a table by its header. One that was only implied so far may be declared. -/
def declareTable (name : String) (entries : Entries) : Option Entries :=
  match entries.lookup name with
  | none => some (entries.put name (.table .declared []))
  | some (.table .implied inner) => some (entries.put name (.table .declared inner))
  | some _ => none

def declareMember (name : String) (entries : Entries) : Option Entries :=
  match entries.lookup name with
  | none => some (entries.put name (.tables [[]]))
  | some (.tables members) => some (entries.put name (.tables (members ++ [[]])))
  | some _ => none

end Entries

end Toml

end Articulation
