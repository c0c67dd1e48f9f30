import Articulation.Asset.Catalog
import Articulation.NameMap
import Articulation.Path
import Articulation.Robot
import Articulation.Settings.Basic
/-! One compilation: the surroundings it reads, and what it collects beside the tree of bodies, which
is assets, contact exclusions, diagnostics and the generated names in use. -/
namespace Articulation

/-- Where a document stands and which settings apply to it. -/
structure Surroundings where
  settings : Settings
  /-- The directory that relative asset paths start from. -/
  baseDirectory : Option String
  /-- The directory below it that holds mesh files. -/
  meshDirectory : Option String
  /-- The name of a model whose document declares none. -/
  nameHint : Option String
deriving DecidableEq, Repr

namespace Surroundings

def ofSettings (settings : Settings) : Surroundings := ⟨settings, none, none, none⟩

def modelName (s : Surroundings) (declared : Option String) (fallback : String) : String :=
  (declared.or s.nameHint).getD fallback

/-- Whether a reference holds the mark that separates a scheme from an address. -/
def hasScheme (file : String) : Bool := (file.splitOn "://").length > 1

/-- The path of a referenced file, which lies in a directory below the base directory. -/
def resolve (s : Surroundings) (file : String) (directory : Option String) : String :=
  if !s.settings.assets.resolvePaths || Path.isAbsolute file || hasScheme file then file
  else
    let base := s.baseDirectory.getD ""
    let base := match directory with
      | some directory => Path.join base directory
      | none => base
    Path.join base file

end Surroundings

structure Session where
  assets : Assets
  exclusions : List (String × String)
  diagnostics : List Diagnostic
  /-- The next index to try for generated names of each stem. -/
  counters : NameMap Nat
  /-- Names that generated ones avoid. -/
  declared : NameMap Unit

namespace Session

def start : Session := ⟨.empty, [], [], .empty, .empty⟩

def report (d : Diagnostic) : StateM Session Unit :=
  modify fun s => { s with diagnostics := s.diagnostics ++ [d] }

def exclude (a b : String) : StateM Session Unit :=
  modify fun s => { s with exclusions := s.exclusions ++ [(a, b)] }

def declare (names : List String) : StateM Session Unit :=
  modify fun s => { s with declared := names.foldl (fun m name => m.insert name ()) s.declared }

/-- The first index from `k` on whose name is not taken, if one is met within `fuel` steps. -/
def firstFree (taken : String → Bool) (name : Nat → String) : Nat → Nat → Nat
  | 0, k => k
  | fuel + 1, k => if taken (name k) then firstFree taken name fuel (k + 1) else k

def indexedName (stem : String) (k : Nat) : String := s!"{stem}_{k}"

/-- A name for something without one: the stem with the next index that no declared name uses. -/
def freshName (stem : String) : StateM Session String := do
  let s ← get
  let k := firstFree s.declared.contains (indexedName stem) s.declared.size
    ((s.counters.find? stem).getD 0)
  set { s with counters := s.counters.insert stem (k + 1) }
  return indexedName stem k

def nameOr (declared : Option String) (stem : String) : StateM Session String :=
  match declared with
  | some name => pure name
  | none => freshName stem

/-- The mesh of a reference; a file that is not registered lies in the mesh directory. -/
def mesh (surroundings : Surroundings) (reference : String) : StateM Session Mesh :=
  modifyGet fun s =>
    let (mesh, assets) := s.assets.resolveMesh reference fun file =>
      surroundings.resolve file surroundings.meshDirectory
    (mesh, { s with assets })

def finish (s : Session) (name : String) (linkage : Linkage) (actuators : List Actuator) : Robot where
  name
  linkage
  meshes := s.assets.meshes.entries
  materials := s.assets.materials.entries
  heightfields := s.assets.heightfields.entries
  actuators
  exclusions := s.exclusions
  diagnostics := s.diagnostics

end Session

end Articulation
