import Articulation.Assembly
/-! Assembling bodies whose links were changed. A change that keeps names and what assembly does to a link
may as well be made to the assembled tree. -/
namespace Articulation

/-- The change of links keeps their names, and may be made before or after a link is placed and jointed. -/
structure Link.Commutes (f : Link → Link) : Prop where
  name : ∀ link, (f link).name = link.name
  placed : ∀ link pose, f { link with pose } = { f link with pose }
  jointed : ∀ (link : Link) joint,
    f { link with joints := link.joints ++ [joint] } = { f link with joints := (f link).joints ++ [joint] }

variable {f : Link → Link} (commutes : Link.Commutes f)

include commutes

namespace Body

theorem name_map (body : Body) : Body.name (body.map f) = body.name := by
  rw [name, link, Rose.value_map, commutes.name]
  rfl

theorem placed_map (body : Body) (pose : Pose) : placed (body.map f) pose = (body.placed pose).map f := by
  cases body with
  | node link children => exact congrArg (Rose.node · _) (commutes.placed link pose).symm

theorem jointed_map (body : Body) (joint : Joint) :
    jointed (body.map f) joint = (body.jointed joint).map f := by
  cases body with
  | node link children => exact congrArg (Rose.node · _) (commutes.jointed link joint).symm

theorem attachFirst_map (body child : Body) (pose : Pose) :
    attachFirst (body.map f) (child.map f) pose = (body.attachFirst child pose).map f := by
  cases body with
  | node link children => exact congrArg (Rose.node _ <| · :: _) (placed_map commutes child pose)

theorem names_map (bodies : List Body) :
    (bodies.map (Rose.map f)).map Body.name = bodies.map Body.name := by
  rw [List.map_map]
  exact List.map_congr_left fun body _ => name_map commutes body

end Body

namespace Assembly

theorem isNamed_map (name : String) : isNamed name ∘ Rose.map f = isNamed name :=
  funext fun body => congrArg (· == name) (Body.name_map commutes body)

theorem filter_isNamed_map (name : String) (pool : List Body) :
    (pool.map (Rose.map f)).filter (fun body => !isNamed name body) =
      (pool.filter fun body => !isNamed name body).map (Rose.map f) := by
  rw [List.filter_map]
  exact congrArg (fun p => (pool.filter (fun body => !p body)).map _) (isNamed_map commutes name)

theorem plan_map (bodies : List Body) (connections : List Connection) :
    plan (bodies.map (Rose.map f)) connections = plan bodies connections := by
  rw [plan, plan, Body.names_map commutes]

def Stock.map (f : Link → Link) (s : Stock) : Stock := { s with pool := s.pool.map (Rose.map f) }

theorem consume_map (s : Stock) (i : Nat) :
    (s.map f).consume i = (s.consume i).map (Stock.map f) := by
  have named := isNamed_map commutes
  unfold Stock.consume Stock.map
  dsimp only
  cases s.slots[i]?.join with
  | none => rfl
  | some c =>
    dsimp only
    rw [List.find?_map, named, filter_isNamed_map commutes, List.any_map, named]
    cases s.pool.find? (isNamed c.child) with
    | none => rfl
    | some child =>
      dsimp only [Option.map_some]
      rw [Body.jointed_map commutes, Body.name_map commutes]
      generalize child.jointed { c.joint with pose := .identity } = child
      split
      · refine congrArg (fun pool => Except.ok (Stock.mk _ pool)) ?_
        rw [List.map_map, List.map_map]
        refine List.map_congr_left fun body _ => ?_
        have same : isNamed c.parent (body.map f) = isNamed c.parent body :=
          congrFun (named c.parent) body
        rw [Function.comp_apply, Function.comp_apply, same, apply_ite (Rose.map f),
          Body.attachFirst_map commutes]
      · rfl

theorem foldlM_consume_map (indices : List Nat) (s : Stock) :
    indices.foldlM Stock.consume (s.map f) = (indices.foldlM Stock.consume s).map (Stock.map f) := by
  induction indices generalizing s with
  | nil => rfl
  | cons i indices ih =>
    rw [List.foldlM_cons, List.foldlM_cons, consume_map commutes]
    cases s.consume i with
    | error e => rfl
    | ok t => exact ih t

theorem erect_map (p : Plan) (bodies : List Body) (connections : List Connection) :
    p.erect (bodies.map (Rose.map f)) connections =
      (p.erect bodies connections).map (Rose.map f) := by
  have start : Stock.start (bodies.map (Rose.map f)) connections =
    (Stock.start bodies connections).map f := rfl
  unfold Plan.erect
  rw [start, foldlM_consume_map commutes]
  cases (p.order.map (·.2)).reverse.foldlM Stock.consume (.start bodies connections) with
  | error e => rfl
  | ok stock =>
    dsimp only [Except.map, bind, Except.bind, Stock.map]
    rw [List.find?_map, isNamed_map commutes, filter_isNamed_map commutes]
    cases stock.pool.find? (isNamed p.root) with
    | none => rfl
    | some root =>
      cases stock.pool.filter fun body => !isNamed p.root body with
      | nil => rfl
      | cons body rest =>
        exact congrArg (fun names => Except.error
          (AssemblyError.topology (.multipleRoots (sortedNames (p.root :: names)))))
          (Body.names_map commutes (body :: rest))

/-- The change may be made to the bodies or to the tree that is assembled from them. -/
theorem assembleInto_map (exclusions : List (String × String)) (bodies : List Body)
    (connections : List Connection) :
    assembleInto exclusions (bodies.map (Rose.map f)) connections =
      ((assembleInto exclusions bodies connections).1.map (Rose.map f),
        (assembleInto exclusions bodies connections).2) := by
  unfold assembleInto
  rw [plan_map commutes]
  cases plan bodies connections with
  | error e => rfl
  | ok p => exact congrArg (·, _) (erect_map commutes p bodies connections)

end Assembly

end Articulation
