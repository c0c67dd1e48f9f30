import Articulation.Mjcf
import Articulation.Proofs.Body.Names
/-! What refers to bodies and joints reads nothing of them but their names. -/
namespace Articulation.Mjcf

variable {t u : Linkage} (same : t.SameNames u)

include same

theorem target_congr (referrer : String) (reference : Option String) :
    target t referrer reference = target u referrer reference := by
  simp only [target, same.joint?_isSome]

theorem actuators_congr (r : Rules) (root : Element) : actuators r t root = actuators r u root := by
  have each (kind : ActuatorKind) (e : Element) : actuator r t kind e = actuator r u kind e := by
    simp only [actuator, target_congr same]
  simp only [actuators, each]

theorem contactExclusions_congr (root : Element) :
    contactExclusions t root = contactExclusions u root := by
  have checked (label name : String) : checkBody t label name = checkBody u label name := by
    simp only [checkBody, same.find?_isSome]
  have each (e : Element) : contactExclusion t e = contactExclusion u e := by
    simp only [contactExclusion, checked]
  simp only [contactExclusions, funext each]

end Articulation.Mjcf
