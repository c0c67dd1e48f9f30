import Articulation.Assembly
import Articulation.Markup.Error
import Articulation.Schema.Basic
import Articulation.Settings.Basic
/-! Why a document cannot be compiled. -/
namespace Articulation

inductive Container where
  | joint (name : String)
  | model (name : String)
  | worldBody (name : String)
  | document (kind : SchemaKind)
deriving DecidableEq, Repr

def Container.text : Container → String
  | joint name => s!"joint '{name}'"
  | model name => s!"MJCF model '{name}'"
  | worldBody name => s!"<worldbody> of '{name}'"
  | document kind => s!"a {kind.name} document"

/-- What refers to a joint by its index. -/
inductive IndexHolder where
  | joint (name : String)
  | body (name : String)
  | shape (name : String)
  /-- A drawable shape without a joint. -/
  | looseShape (name : String)
deriving DecidableEq, Repr

def IndexHolder.text : IndexHolder → String
  | joint name => name
  | body name => s!"body '{name}'"
  | shape name => name
  | looseShape name => s!"draw shape '{name}'"

inductive LoadError where
  | file (path : String) (cause : FileFault)
  | settings (cause : AxisFault)
  | markup (cause : MarkupFault)
  /-- The text is no rlsim document. -/
  | json
  | missingElement (element : String) (container : Container)
  | assembly (cause : AssemblyError)
  | jointIndex (holder : IndexHolder) (index : Int) (count : Nat)
deriving DecidableEq, Repr

namespace LoadError

/-- The wording of an error; a text that breaks the rules of its format has none of its own. -/
def message? : LoadError → Option String
  | file path cause => some s!"IO error reading {path}: {cause.message}"
  | settings cause => some s!"Invalid value for mjcf.joint_axis: {cause.message}"
  | markup cause => (MarkupError.malformed cause).message?
  | json => none
  | missingElement element container => some s!"missing <{element}> in {container.text}"
  | assembly cause => some cause.message
  | jointIndex holder index count =>
    some s!"{holder.text} references joint index {index}, but the model has {count} joints"

end LoadError

end Articulation
