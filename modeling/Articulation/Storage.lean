/-! Files by path, and why one cannot be read as text. Paths are relative to the directory that holds
the files; a component `.` stays in place and `..` goes up one directory. -/
namespace Articulation

inductive FileFault where
  | notFound
  | notDirectory
  | isDirectory
  | nameTooLong
  | nameWithNul
  | notText
deriving DecidableEq, Repr

def FileFault.message : FileFault → String
  | notFound => "No such file or directory (os error 2)"
  | notDirectory => "Not a directory (os error 20)"
  | isDirectory => "Is a directory (os error 21)"
  | nameTooLong => "File name too long (os error 36)"
  | nameWithNul => "file name contained an unexpected NUL byte"
  | notText => "stream did not contain valid UTF-8"

/-- Files with their bytes, and the directories that were made for them, each under the components
of its path. -/
structure Storage where
  files : List (List String × ByteArray)
  directories : List (List String)

namespace Storage

/-- The longest name of a file or directory, in bytes. -/
def nameLimit : Nat := 255

/-- The longest path, in bytes. -/
def pathLimit : Nat := 4095

def components (path : String) : List String :=
  (path.splitOn "/").filter fun part => part != ""

def isFile (s : Storage) (parts : List String) : Bool := s.files.any fun file => file.1 == parts

/-- The top directory is always there. -/
def isDirectory (s : Storage) (parts : List String) : Bool :=
  parts.isEmpty || s.directories.contains parts

inductive Place where
  | within (parts : List String)
  /-- A directory above the top one. Of what it holds nothing is known. -/
  | above
deriving DecidableEq, Repr

/-- The place that a name leads to in a directory, whether or not something is there. -/
def Place.enter : Place → String → Except FileFault Place
  | place, "." => .ok place
  | .above, ".." | .within [], ".." => .ok .above
  | .within parts, ".." => .ok (.within parts.dropLast)
  | place, name =>
    if nameLimit < name.utf8ByteSize then .error .nameTooLong
    else match place with
      | .within parts => .ok (.within (parts ++ [name]))
      | .above => .error .notFound

def enter (s : Storage) (place : Place) (part : String) : Except FileFault Place :=
  match place with
  | .above => place.enter part
  | .within parts =>
    if s.isFile parts then .error .notDirectory
    else if s.isDirectory parts then place.enter part
    else .error .notFound

/-- Where a path leads. An absolute one starts above the top directory; a stroke at its end asks for
a directory. -/
def follow (s : Storage) (path : String) : Except FileFault Place :=
  (if path.endsWith "/" then components path ++ ["."] else components path).foldlM s.enter
    (if path.startsWith "/" then .above else .within [])

def bytes (s : Storage) (path : String) : Except FileFault ByteArray := do
  if path.contains '\x00' then throw .nameWithNul
  if path.isEmpty then throw .notFound
  if pathLimit < path.utf8ByteSize then throw .nameTooLong
  match ← s.follow path with
  | .above => throw .isDirectory
  | .within parts =>
    match s.files.lookup parts with
    | some bytes => return bytes
    | none => throw (if s.isDirectory parts then .isDirectory else .notFound)

def read (s : Storage) (path : String) : Except FileFault String := do
  match String.fromUTF8? (← s.bytes path) with
  | some text => return text
  | none => throw .notText

/-- What components lead to from the top directory, where `..` takes back the one before it. -/
def resolve (parts : List String) : List String :=
  parts.foldl (fun found part =>
    if part = "." then found else if part = ".." then found.dropLast else found ++ [part]) []

/-- Writes a file over one of the same path, and makes the directories on the way to it. -/
def write (s : Storage) (path : String) (bytes : ByteArray) : Storage :=
  let parts := components path
  { files := (resolve parts, bytes) :: s.files
    directories := (List.range parts.length).map (fun n => resolve (parts.take n)) ++ s.directories }

/-- Writes a text under the given name into a directory of its own, and tells its path. -/
def writeApart (s : Storage) (name text : String) : String × Storage :=
  let path := s!"scratch-{s.files.length}/{name}"
  (path, s.write path text.toUTF8)

/-- Files from their paths and bytes; the last one of a path stands. -/
def ofList (files : List (String × ByteArray)) : Storage :=
  files.foldl (fun s file => s.write file.1 file.2) ⟨[], []⟩

end Storage

end Articulation
