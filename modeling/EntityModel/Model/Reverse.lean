import EntityModel.Model.Query

/-!
# The other side of associations

An association is written on one class only.  What the class at its other end sees of it is computed
from the linked model whenever it is asked for.
-/

namespace EntityModel

structure ReverseAssociation where
  owner : ClassId
  /-- The association that this one is the other side of. -/
  reverseOf : PropertyId
  /-- The class at the other end. -/
  association : ClassId
  cardinality : Cardinality
  role : Option String
  name : String
  location : Location
deriving Repr, DecidableEq

structure ReverseOptions where
  /-- Only between classes of one root module. -/
  onlyInSameRootModule : Bool := false
  /-- Reference classes have reverse associations too. -/
  includeReferenceClasses : Bool := false
deriving Repr, DecidableEq

namespace Model

variable (m : Model)

/-- What an association of `source` is when seen from the class `target`. -/
def reverseOf? (target : ClassId) (source : Class) (p : Property) : Option ReverseAssociation := do
  let a ← p.association?
  if a.association.target != some target || a.cardinality == .oneToOne then none
  else if a.cardinality != .manyToOne && (m.singlePrimaryKey source.id).isNone then none
  else
    let cardinality := a.cardinality.opposite
    let base := if cardinality.isToMany then source.pluralName else source.name.value
    return {
      owner := target
      reverseOf := p.id
      association := source.id
      cardinality
      role := a.role
      name := base ++ a.role.getD ""
      location := p.location }

/-- The reverse associations of a class, in model order of the classes that they come from. -/
def reverseProperties (id : ClassId) (options : ReverseOptions) : List ReverseAssociation :=
  match m.cls? id with
  | none => []
  | some target =>
    if (target.reference && !options.includeReferenceClasses) || !m.isPersistent id then []
    else
      let sources := m.classes.filter fun c =>
        !options.onlyInSameRootModule || c.ns.rootModule == target.ns.rootModule
      sources.flatMap fun c => (m.classProperties c.id).filterMap (m.reverseOf? id c)

end Model

end EntityModel
