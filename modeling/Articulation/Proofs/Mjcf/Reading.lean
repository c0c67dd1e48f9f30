import Articulation.Mjcf
/-! What the parts of a body read. None of them reads the attributes that only choose a class, so that
scopes that differ in these attributes alone compile alike. -/
namespace Articulation

/-- The two lookups agree on every attribute but those that choose a class. -/
def Lookup.Alike (l m : Lookup) : Prop :=
  ∀ name, name ≠ "class" → name ≠ "childclass" → l name = m name

/-- The two scopes are those of elements of one type, and agree on what is written there and on what it
resolves to. -/
structure Scope.Alike (a b : Scope) : Prop where
  kind : a.element.kind = b.element.kind
  own : a.element.own.Alike b.element.own
  lookup : a.lookup.Alike b.lookup

namespace Lookup.Alike

variable {l m : Lookup} (alike : l.Alike m)

include alike

theorem string? {name : String} (other : name ≠ "class") (another : name ≠ "childclass") :
    l.string? name = m.string? name := by
  rw [Lookup.string?, alike name other another, Lookup.string?]

theorem pose (unit : AngleUnit) : l.pose unit = m.pose unit := by
  simp only [Lookup.pose, Lookup.rotation, Lookup.vec3?, Lookup.vec4?, Lookup.vector?, Lookup.axes?,
    Lookup.floatArray?, alike _, ne_eq, String.reduceEq, not_false_eq_true]

theorem collider (name : String) (shape : Shape) :
    Mjcf.collider l name shape = Mjcf.collider m name shape := by
  simp only [Mjcf.collider, Mjcf.filterBits, Mjcf.density, Lookup.int?, Lookup.float?,
    Lookup.floatArray?, alike _, ne_eq, String.reduceEq, not_false_eq_true]

theorem materialOf (referrer : String) : Mjcf.materialOf l referrer = Mjcf.materialOf m referrer := by
  simp only [Mjcf.materialOf, alike.string?, ne_eq, String.reduceEq, not_false_eq_true]

theorem limits (convert : Float32 → Float32) : Mjcf.limits l convert = Mjcf.limits m convert := by
  have range : l.vector? 2 "range" = m.vector? 2 "range" := by
    rw [Lookup.vector?, alike _ (by decide) (by decide), Lookup.vector?]
  rw [Mjcf.limits, Mjcf.limits, range, alike.string? (by decide) (by decide)]

end Lookup.Alike

namespace Scope.Alike

variable {a b : Scope} (alike : a.Alike b)

include alike

theorem name? : a.element.name? = b.element.name? :=
  alike.own.string? (by decide) (by decide)

theorem ofKind (surroundings : Surroundings) (label : String) (kind : ShapeKind) :
    Geometry.ofKind surroundings a label kind = Geometry.ofKind surroundings b label kind := by
  simp only [Geometry.ofKind, Lookup.string?, Lookup.floatArray?, alike.lookup _, ne_eq,
    String.reduceEq, not_false_eq_true]

theorem ofGeom (surroundings : Surroundings) :
    Geometry.ofGeom surroundings a = Geometry.ofGeom surroundings b := by
  simp only [Geometry.ofGeom, alike.name?, alike.kind, alike.ofKind, Lookup.string?,
    alike.lookup _, ne_eq, String.reduceEq, not_false_eq_true]

theorem paint (material : Option Material) (d : Drawable) :
    Mjcf.paint a material d = Mjcf.paint b material d := by
  simp only [Mjcf.paint, Lookup.vector?, alike.own _, alike.lookup _, ne_eq, String.reduceEq,
    not_false_eq_true]

end Scope.Alike

namespace Mjcf

variable {r : Rules} {inherited other : Option String} {e f : Element}
  (alike : (r.scope inherited e).Alike (r.scope other f))

include alike

theorem geom_congr (surroundings : Surroundings) :
    geom r surroundings inherited e = geom r surroundings other f := by
  have named : e.name? = f.name? := alike.name?
  simp only [geom, alike.ofGeom, alike.lookup.pose, alike.lookup.materialOf, alike.lookup.collider,
    alike.paint, named]

theorem joint_congr : joint r inherited e = joint r other f := by
  have named : e.name? = f.name? := alike.name?
  simp only [joint, alike.lookup.pose, alike.lookup.limits, Lookup.string?, Lookup.vec3?, Lookup.float?,
    alike.lookup _, named, ne_eq, String.reduceEq, not_false_eq_true]

end Mjcf

theorem Mjcf.inertial_congr {r : Rules} {e f : Element} (alike : (r.scope none e).Alike (r.scope none f))
    (name : String) : inertial r name e = inertial r name f := by
  simp only [inertial, alike.lookup.pose, Lookup.vec3?, Lookup.vector?, Lookup.float?, alike.lookup _,
    ne_eq, String.reduceEq, not_false_eq_true]

end Articulation
