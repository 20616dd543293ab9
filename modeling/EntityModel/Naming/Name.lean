import EntityModel.Model.Query
import EntityModel.Text.Case

/-!
# Names of properties

A property that is given no name gets one from what it points to.  Chains of such properties are
followed up to a fixed length; a name that hangs on something unresolved is not known.
-/

namespace EntityModel

namespace Naming

/-- The longest chain of aliases and associations that is followed. -/
def chainLimit : Nat := 32

/-- The text that an alias puts at one side of a name. -/
def affixText (className : String) : Option Affix → String
  | none => ""
  | some .className => className
  | some (.literal text) => text

/-- The name of an association without a name: target, key and role.  The target is not said twice
if the key starts with it; with legacy role names a role stands in its place. -/
def associationName (rules : NamingRules) (a : AssociationProperty)
    (target key : String) : String :=
  let role := a.role.getD ""
  let base :=
    if rules.useLegacyRoleNames && !role.isEmpty then role ++ key
    else (if target.toList.isPrefixOf key.toList then key else target ++ key) ++ role
  if a.cardinality.isToMany then base ++ "List" else base

end Naming

open Naming

namespace Model

variable (m : Model) (rules : NamingRules)

/-- The name of a property, found along a chain of at most `fuel` properties. -/
def nameWithin : Nat → PropertyId → Option String
  | 0, _ => none
  | fuel + 1, id => do
    let p ← m.property? id
    match p.declaredName? with
    | some name => return name.value
    | none =>
      match p.kind with
      | .association a =>
        let target ← m.cls? (← a.association.target)
        let key ← nameWithin fuel (← m.keyOf a)
        return associationName rules a target.name.value key
      | .propertyAlias a =>
        let base ← nameWithin fuel (← (← a.property).target)
        let className := ((a.cls.target.bind m.cls?).map (·.name.value)).getD ""
        return affixText className a.before ++ base ++ affixText className a.after
      | _ => none

/-- The name of a property, unless it hangs on something unresolved. -/
def propertyName? (id : PropertyId) : Option String := m.nameWithin rules (chainLimit + 1) id

/-- The name of a property; one that is not known is empty. -/
def propertyName (id : PropertyId) : String := (m.propertyName? rules id).getD ""

/-- The property of a class, decorators included, that goes by a name. -/
def findProperty (cls : ClassId) (name : String) : Option PropertyId :=
  ((m.classProperties cls).find? fun p => m.propertyName? rules p.id == some name).map (·.id)

/-- The name of a Java field. -/
def javaName (id : PropertyId) : String := Text.lowerFirst (m.propertyName rules id)

/-- The name of a TypeScript field; an endpoint may keep names as they are. -/
def tsName (id : PropertyId) : String :=
  let name := m.propertyName rules id
  let preserved : Bool :=
    match id.owner with
    | .params e | .returns e => (m.endpoint? e).any (·.preservePropertyCasing)
    | _ => false
  if preserved then name else Text.lowerFirst name

end Model

end EntityModel
