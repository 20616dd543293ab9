import EntityModel.Naming.Name

/-!
# Labels and resource keys

A resource key is the path to what it stands for: module, class, property, each with a small first
letter.  An alias without a label of its own shares the key and the label of its target.
-/

namespace EntityModel

open Naming

/-- The module of a namespace as the start of a key. -/
def Namespace.key (n : Namespace) : String := ".".intercalate (n.segments.map Text.lowerFirst)

namespace Naming

/-- The parts that are not empty, with dots between them. -/
def joinKey (parts : List String) : String := ".".intercalate (parts.filter fun p => !p.isEmpty)

end Naming

namespace Model

variable (m : Model)

/-- The name and the namespace of what a property belongs to. -/
def ownerInfo (owner : PropertyOwner) : Option (String × Namespace) :=
  match owner with
  | .cls id => (m.cls? id).map fun c => (c.name.value, c.ns)
  | .decorator id => (m.decorator? id).map fun d => (d.name.value, d.ns)
  | .params id | .returns id => (m.endpoint? id).map fun e => (e.name.value, e.ns)

def classResourceKey (id : ClassId) : Option String := do
  let c ← m.cls? id
  return joinKey [c.ns.key, Text.lowerFirst c.name.value]

/-- The key of one of the values of a class. -/
def valueResourceKey (id : ClassId) (index : Nat) : Option String := do
  let key ← m.classResourceKey id
  let value ← (← m.cls? id).values[index]?
  return key ++ ".values." ++ value.name.value

variable (rules : NamingRules)

def resourceKeyWithin : Nat → PropertyId → Option String
  | 0, _ => none
  | fuel + 1, id => do
    let p ← m.property? id
    let own : Option String := do
      let (owner, ns) ← m.ownerInfo id.owner
      return joinKey [ns.key, Text.lowerFirst owner, Text.lowerFirst (m.propertyName rules id)]
    match p.kind with
    | .propertyAlias a =>
      if a.label.isNone then resourceKeyWithin fuel (← (← a.property).target) else own
    | _ => own

/-- The resource key of a property. -/
def resourceKey (id : PropertyId) : Option String := m.resourceKeyWithin rules (chainLimit + 1) id

/-- The label found along the chain: the first one written, or that of the associated class. -/
def labelWithin : Nat → PropertyId → Option String
  | 0, _ => none
  | fuel + 1, id => do
    let p ← m.property? id
    match p.label? with
    | some label => return label
    | none =>
      match p.kind with
      | .propertyAlias a => labelWithin fuel (← (← a.property).target)
      | .association a => return (← m.cls? (← a.association.target)).label
      | _ => none

/-- The label of a property; without one, its name. -/
def label (id : PropertyId) : String :=
  (m.labelWithin (chainLimit + 1) id).getD (m.propertyName rules id)

end Model

end EntityModel
