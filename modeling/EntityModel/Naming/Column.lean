import EntityModel.Naming.Name
import EntityModel.Text.Words

/-!
# Names of columns

A column is named in constant case, behind the trigram of its table.  An association takes the
column of the key that it points to, followed by its role.
-/

namespace EntityModel

open Naming

namespace Model

variable (m : Model)

/-- What is left of a name behind the name of a class, if anything is. -/
def behindClassName? (name : String) (c : Class) : Option String :=
  let rest := name.toList.drop c.name.value.length
  if c.name.value.toList.isPrefixOf name.toList && !rest.isEmpty then some (String.ofList rest)
  else none

/-- The key of a class that has a parent goes without the name of the class or of the parent. -/
def withoutOwner (id : PropertyId) (name : String) : String :=
  let shorter := do
    let cls ← id.owner.cls?
    let parent ← m.parent? cls
    ([cls, parent].filterMap m.cls?).findSome? (behindClassName? name)
  shorter.getD name

def withTrigram (host : Option ClassId) (name : String) : String :=
  match (host.bind m.cls?).bind Class.trigram with
  | some trigram => Text.upper trigram.value ++ "_" ++ name
  | none => name

variable (rules : NamingRules)

/-- The column of a property along a chain of at most `fuel` properties; `host` is the class whose
trigram stands in front, for which the owner of the property stands in. -/
def columnWithin : Nat → PropertyId → Option ClassId → String
  | 0, id, _ => Text.constantCase (m.propertyName rules id)
  | fuel + 1, id, host =>
    let ownName := Text.constantCase (m.propertyName rules id)
    let host := host.or id.owner.cls?
    match m.property? id with
    | none => ""
    | some p =>
      match p.kind with
      | .regular r =>
        let name := if r.primaryKey then m.withoutOwner id r.name.value else r.name.value
        m.withTrigram host (Text.constantCase name)
      | .composition c => Text.constantCase c.name.value
      | .association a =>
        match a.association.target, m.keyOf a with
        | some target, some key =>
          let name :=
            match a.trigram with
            | some trigram =>
              Text.upper trigram ++ "_" ++ Text.constantCase (m.propertyName rules key)
            | none => columnWithin fuel key (some target)
          match a.role with
          | some role => name ++ "_" ++ Text.constantCase role
          | none => name
        | _, _ => ownName
      | .propertyAlias a =>
        let renamed := a.name.isSome || a.before.isSome || a.after.isSome
        match a.property.bind Reference.target with
        | some target => if renamed then m.withTrigram host ownName
          else columnWithin fuel target none
        | none => m.withTrigram host ownName

def columnName (id : PropertyId) (host : Option ClassId) : String :=
  m.columnWithin rules (chainLimit + 1) id host

end Model

end EntityModel
