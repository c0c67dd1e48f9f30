/-! Paths as text. Joining normalizes nothing; the parts of a path are read with empty components and
components `.` passed over, except a leading one. -/
namespace Articulation.Path

def isAbsolute (path : String) : Bool := path.startsWith "/"

/-- A path seen from another one. An absolute path stands for itself. -/
def join (base path : String) : String :=
  if isAbsolute path || base.isEmpty || base.endsWith "/" then
    (if isAbsolute path then path else base ++ path)
  else base ++ "/" ++ path

/-- Components behind the first one, without empty ones and `.` at their end. -/
def trimEnd (parts : List String) : List String :=
  (parts.reverse.dropWhile fun part => part == "" || part == ".").reverse

/-- The first component, which is empty for an absolute path, and the components behind it. -/
def split (path : String) : String × List String :=
  match path.splitOn "/" with
  | [] => ("", [])
  | first :: parts => (first, trimEnd parts)

/-- The directory that a path lies in; the root and the empty path lie in none. -/
def parent? (path : String) : Option String :=
  match split path with
  | (first, []) => if first.isEmpty then none else some ""
  | (first, parts) =>
    match trimEnd parts.dropLast with
    | [] => some (if first.isEmpty then "/" else first)
    | parts => some ("/".intercalate (first :: parts))

def fileName? (path : String) : Option String :=
  let last := match split path with
    | (first, parts) => parts.getLastD first
  if last = "" ∨ last = "." ∨ last = ".." then none else some last

/-- The characters before the last point, unless nothing stands before it. -/
def stem (name : String) : String :=
  match name.toList.reverse.dropWhile (· != '.') with
  | _ :: c :: before => String.ofList (c :: before).reverse
  | _ => name

def fileStem? (path : String) : Option String := (fileName? path).map stem

end Articulation.Path
