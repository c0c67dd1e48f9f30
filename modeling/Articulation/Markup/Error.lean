import Articulation.Attribute.Basic
import Articulation.Storage
/-! What can be wrong with a marked-up document, and with a write to an element tree. -/
namespace Articulation

inductive MarkupFault where
  /-- The text breaks the rules of markup. -/
  | illFormed
  | noRoot
  /-- The innermost open element was never closed; its type is known unless it was skipped. -/
  | unclosed (kind : Option String)
  | secondRoot (found : String)
  | unexpectedRoot (expected found : String)
deriving DecidableEq, Repr

/-- The wording of a fault; what breaks the rules of markup has none of its own. -/
def MarkupFault.message? : MarkupFault → Option String
  | illFormed => none
  | noRoot => some "document has no root element"
  | unclosed none => some "unclosed element"
  | unclosed (some kind) => some s!"unclosed element <{kind}>"
  | secondRoot found => some s!"multiple root elements (second is <{found}>)"
  | unexpectedRoot expected found =>
    some s!"expected <{expected}> document element, found <{found}>"

inductive SchemaViolation where
  | notAllowedChild (parent child : String)
  | unknownElement (kind : String)
  | notAllowedAttribute (element name : String)
  | attributeType (element name : String) (expected : AttributeType)
deriving DecidableEq, Repr

def SchemaViolation.message : SchemaViolation → String
  | notAllowedChild parent child => s!"<{child}> is not allowed inside <{parent}>"
  | unknownElement kind => s!"unknown element <{kind}>"
  | notAllowedAttribute element name => s!"attribute '{name}' is not allowed on <{element}>"
  | attributeType element name expected =>
    s!"attribute '{name}' on <{element}> expects {expected.name}"

inductive MarkupError where
  | malformed (cause : MarkupFault)
  | violation (cause : SchemaViolation)
  | file (path : String) (cause : FileFault)
deriving DecidableEq, Repr

namespace MarkupError

def message? : MarkupError → Option String
  | malformed cause => cause.message?.map ("malformed markup: " ++ ·)
  | violation cause => some cause.message
  | file path cause => some s!"IO error reading {path}: {cause.message}"

def isSchemaViolation : MarkupError → Bool
  | violation _ => true
  | malformed _ | file .. => false

end MarkupError

end Articulation
