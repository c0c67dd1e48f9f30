/-! Findings that do not stop a compilation: geometry that had to be replaced, and references to
things that no part of the document declares. -/
namespace Articulation

inductive Diagnostic where
  | malformedGeometry (element message : String)
  | unresolvedReference (referrer kind target : String)
deriving DecidableEq, Repr

namespace Diagnostic

def text : Diagnostic → String
  | malformedGeometry element message => s!"malformed geometry on '{element}': {message}"
  | unresolvedReference referrer kind target => s!"'{referrer}' references unknown {kind} '{target}'"

def isGeometry : Diagnostic → Bool
  | malformedGeometry .. => true
  | unresolvedReference .. => false

end Diagnostic

end Articulation
