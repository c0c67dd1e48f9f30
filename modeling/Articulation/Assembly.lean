import Articulation.Body.Basic
import Articulation.NameMap
/-! Trees from bodies and connections that are declared apart and in any order. The root is the one
body that no connection names as a child; a breadth-first walk from it must meet every connection
once. Consumed in the reverse of that order, every connection moves a complete subtree below its
parent. -/
namespace Articulation

structure Connection where
  joint : Joint
  parent : String
  child : String
  /-- The frame of the child in its parent's. -/
  pose : Pose
deriving DecidableEq, Repr

inductive TopologyError where
  | noRoot
  | multipleRoots (names : List String)
  /-- Some body is met twice or some connection not at all. -/
  | notATree (reached total : Nat)
deriving DecidableEq, Repr

def TopologyError.message : TopologyError → String
  | noRoot => "no root link: every link appears as the child of some joint"
  | multipleRoots names => "multiple root links: " ++ ", ".intercalate names
  | notATree reached total =>
    s!"connections do not form a single tree ({reached} of {total} connections reachable from the root)"

inductive AssemblyError where
  | duplicateLink (name : String)
  | unknownLink (joint link : String)
  | topology (cause : TopologyError)
deriving DecidableEq, Repr

def AssemblyError.message : AssemblyError → String
  | duplicateLink name => s!"duplicate link name: {name}"
  | unknownLink joint link => s!"joint '{joint}' references undeclared link '{link}'"
  | topology cause => cause.message

namespace Assembly

/-! ### The root -/

/-- Parents that are no children, each once and in ascending order. -/
def rootCandidates (connections : List Connection) : List String :=
  let children := connections.map (·.child)
  sortedNames ((connections.map (·.parent)).filter fun name => !children.contains name).eraseDups

def findRoot (connections : List Connection) : Except TopologyError String :=
  match rootCandidates connections with
  | [] => .error .noRoot
  | [root] => .ok root
  | names => .error (.multipleRoots names)

/-! ### The breadth-first order -/

abbrev Indexed := Connection × Nat

/-- How far a walk has come: the names met, the connections taken, and the names whose children are
still to be met. -/
structure Frontier where
  reached : List String
  order : List Indexed
  queue : List String

def Frontier.take (total : Nat) (f : Frontier) (c : Indexed) : Except TopologyError Frontier :=
  if f.reached.contains c.1.child then .error (.notATree f.order.length total)
  else .ok ⟨c.1.child :: f.reached, f.order ++ [c], f.queue ++ [c.1.child]⟩

def below (connections : List Indexed) (name : String) : List Indexed :=
  connections.filter fun c => c.1.parent == name

def explore (connections : List Indexed) : Nat → Frontier → Except TopologyError Frontier
  | 0, f => .ok f
  | fuel + 1, f =>
    match f.queue with
    | [] => .ok f
    | name :: queue => do
      let f ← (below connections name).foldlM (Frontier.take connections.length) { f with queue }
      explore connections fuel f

/-- The connections in breadth-first order from a root, siblings as declared. A walk visits the root
and at most one name for each connection. -/
def topDownOrder (connections : List Connection) (root : String) :
    Except TopologyError (List Indexed) := do
  let f ← explore connections.zipIdx (connections.length + 1) ⟨[root], [], [root]⟩
  if f.order.length ≠ connections.length then
    throw (.notATree f.order.length connections.length)
  return f.order

/-! ### The tree -/

def firstRepeated? : List String → List String → Option String
  | _, [] => none
  | earlier, name :: names =>
    if earlier.contains name then some name else firstRepeated? (name :: earlier) names

/-- The first joint with an end that is no body's name, and that name; parents before children. -/
def firstUnknown? (names : List String) : List Connection → Option (String × String)
  | [] => none
  | c :: connections =>
    if !names.contains c.parent then some (c.joint.name, c.parent)
    else if !names.contains c.child then some (c.joint.name, c.child)
    else firstUnknown? names connections

def soleBody (names : List String) : Except TopologyError String :=
  match names with
  | [] => .error .noRoot
  | [name] => .ok name
  | names => .error (.multipleRoots (sortedNames names))

/-- The root of a model: without connections its only body, else the one parent that is no child. -/
def rootOf (names : List String) (connections : List Connection) : Except TopologyError String :=
  if connections.isEmpty then soleBody names else findRoot connections

structure Plan where
  root : String
  order : List Indexed

def Plan.pairs (p : Plan) : List (String × String) := p.order.map fun c => (c.1.parent, c.1.child)

def plan (bodies : List Body) (connections : List Connection) : Except AssemblyError Plan :=
  let names := bodies.map Body.name
  match firstRepeated? [] names with
  | some name => .error (.duplicateLink name)
  | none =>
    match firstUnknown? names connections with
    | some (joint, link) => .error (.unknownLink joint link)
    | none => do
      let root ← (rootOf names connections).mapError .topology
      let order ← (topDownOrder connections root).mapError .topology
      return ⟨root, order⟩

/-- What is not used up yet: the connections, each in the slot of its position, and the bodies that
hang below no other. -/
structure Stock where
  slots : List (Option Connection)
  pool : List Body

def isNamed (name : String) (body : Body) : Bool := body.name == name

/-- Takes the connection out of a slot and its child out of the pool, and hangs the child with the
joint at its frame below the parent, before what hangs there. -/
def Stock.consume (s : Stock) (i : Nat) : Except AssemblyError Stock :=
  match s.slots[i]?.join with
  | none => .ok s
  | some c =>
    match s.pool.find? (isNamed c.child) with
    | none => .error (.unknownLink c.joint.name c.child)
    | some child =>
      let child := child.jointed { c.joint with pose := .identity }
      let pool := s.pool.filter fun body => !isNamed c.child body
      if pool.any (isNamed c.parent) then
        .ok ⟨s.slots.set i none,
          pool.map fun body => if isNamed c.parent body then body.attachFirst child c.pose else body⟩
      else .error (.unknownLink child.name c.parent)

def Stock.start (bodies : List Body) (connections : List Connection) : Stock :=
  ⟨connections.map some, bodies⟩

/-- The tree of a plan. Connections are consumed from the last one on, so a body moves with all that
hangs below it; beside the root no body may be left. -/
def Plan.erect (p : Plan) (bodies : List Body) (connections : List Connection) :
    Except AssemblyError Body := do
  let stock ← (p.order.map (·.2)).reverse.foldlM Stock.consume (.start bodies connections)
  match stock.pool.find? (isNamed p.root) with
  | none => throw (.topology .noRoot)
  | some body =>
    match stock.pool.filter fun body => !isNamed p.root body with
    | [] => return body
    | rest => throw (.topology (.multipleRoots (sortedNames (p.root :: rest.map Body.name))))

def assemble (bodies : List Body) (connections : List Connection) :
    Except AssemblyError (Body × Plan) := do
  let plan ← plan bodies connections
  return (← plan.erect bodies connections, plan)

/-- The tree, and a list of pairs with those of the plan behind it. Once there is a plan the list
grows, also if no tree comes of it. -/
def assembleInto (exclusions : List (String × String)) (bodies : List Body)
    (connections : List Connection) : Except AssemblyError Body × List (String × String) :=
  match plan bodies connections with
  | .error e => (.error e, exclusions)
  | .ok plan => (plan.erect bodies connections, exclusions ++ plan.pairs)

end Assembly

end Articulation
