import Articulation.Dialect
import Articulation.Markup.Tree
import Articulation.Mjcf
import Articulation.Rlsim.Build
import Articulation.Schema.Mjcf
import Articulation.Schema.Urdf
import Articulation.Settings.Reader
import Articulation.Urdf
/-! Compiling a model from a text, from a file or from an element tree. Settings are checked before
anything is read, except for the file itself. -/
namespace Articulation

def SchemaKind.schema : SchemaKind → Schema
  | mjcf => .mjcf
  | urdf => .urdf

def compileElement (surroundings : Surroundings) (kind : SchemaKind) (root : Element) :
    Except LoadError Robot :=
  match kind with
  | .mjcf => Mjcf.compile surroundings kind root
  | .urdf => Urdf.compile surroundings kind root

def compileMarkup (surroundings : Surroundings) (kind : SchemaKind) (text : String) :
    Except LoadError Robot := do
  let root ← (Element.read kind.schema text).mapError .markup
  compileElement surroundings kind root

def compileText (surroundings : Surroundings) (dialect : Dialect) (text : String) :
    Except LoadError Robot := do
  surroundings.settings.validate.mapError .settings
  match dialect with
  | .mjcf => compileMarkup surroundings .mjcf text
  | .urdf => compileMarkup surroundings .urdf text
  | .rlsim => Rlsim.compile surroundings text

def loadText (text : String) (dialect : Dialect) (settings : Settings) : Except LoadError Robot :=
  compileText (.ofSettings settings) dialect text

def compileTree (surroundings : Surroundings) (tree : ElementTree) : Except LoadError Robot := do
  surroundings.settings.validate.mapError .settings
  compileElement surroundings tree.schema.kind tree.root

def loadTree (tree : ElementTree) (settings : Settings) : Except LoadError Robot :=
  compileTree (.ofSettings settings) tree

/-- Compiles an element tree whose relative asset paths start from a directory. -/
def loadTreeIn (tree : ElementTree) (directory : String) (settings : Settings) :
    Except LoadError Robot :=
  compileTree { Surroundings.ofSettings settings with baseDirectory := some directory } tree

abbrev FileReader := String → Except FileFault String

/-- Compiles a file. Its directory is where relative asset paths start, and its name names a model
without a name. -/
def loadFile (read : FileReader) (path : String) (dialect : Dialect) (settings : Settings) :
    Except LoadError Robot := do
  let text ← (read path).mapError (.file path)
  compileText ⟨settings, Path.parent? path, none, Path.fileStem? path⟩ dialect text

def Settings.ofFile (read : FileReader) (path : String) : Except SettingsError Settings := do
  Settings.read (← (read path).mapError .file)

def ElementTree.ofFile (read : FileReader) (schema : Schema) (path : String) :
    Except MarkupError ElementTree := do
  let text ← (read path).mapError (.file path)
  (ElementTree.read schema text).mapError .malformed

end Articulation
