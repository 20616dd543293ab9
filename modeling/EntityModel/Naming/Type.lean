import EntityModel.Naming.Name

/-!
# Domains and types of properties

Aliases and associations have the domain of what they point to.  With `as` they exchange it for one
that the domain lists under that word, and whose type is put around the type at the end of the
chain.
-/

namespace EntityModel

open Naming

namespace Model

variable (m : Model)

/-- The next property on the chain to the domain; regular properties and compositions end it. -/
def nextOnChain (p : Property) : Option PropertyId :=
  match p.kind with
  | .regular _ | .composition _ => none
  | .propertyAlias a => a.property.bind Reference.target
  | .association a => m.keyOf a

def endsChain (p : Property) : Bool :=
  match p.kind with
  | .regular _ | .composition _ => true
  | _ => false

/-- The end of a chain of at most `fuel` properties. -/
def leafWithin : Nat → PropertyId → Option PropertyId
  | 0, _ => none
  | fuel + 1, id => do
    let p ← m.property? id
    if endsChain p then return id
    leafWithin fuel (← m.nextOnChain p)

/-- The property at the end of the chain, whose domain gives the type. -/
def leafProperty (id : PropertyId) : Option PropertyId := m.leafWithin (chainLimit + 1) id

/-- The domain that a property has before its own `as`, where `effective` gives the domain of the
next property. -/
def baseFrom (effective : PropertyId → Option DomainId) (p : Property) : Option DomainId :=
  match p.kind with
  | .regular r => r.domain.target
  | .composition c => c.domain.bind Reference.target
  | _ => (m.nextOnChain p).bind effective

/-- The word behind `as`. -/
def asName (p : Property) : Option (Located String) :=
  match p.kind with
  | .association a => a.asDomain
  | .propertyAlias a => a.asDomain
  | _ => none

/-- What a property makes of the domain `base`. -/
def applyAs (p : Property) (base : DomainId) : Option DomainId :=
  match asName p with
  | none => some base
  | some word => do (← (← m.domain? base).asDomains.lookup word.value).target

def effectiveWithin : Nat → PropertyId → Option DomainId
  | 0, _ => none
  | fuel + 1, id => do
    let p ← m.property? id
    m.applyAs p (← m.baseFrom (effectiveWithin fuel) p)

/-- The domain of a property before its own `as`. -/
def baseDomain (id : PropertyId) : Option DomainId :=
  (m.property? id).bind (m.baseFrom (m.effectiveWithin chainLimit))

/-- The domain of a property. -/
def effectiveDomain (id : PropertyId) : Option DomainId := m.effectiveWithin (chainLimit + 1) id

variable (rules : NamingRules)

/-- The type of the key of a reference class with values, unless the database makes up its keys. -/
def enumTypeName (id : PropertyId) : Option String := do
  let p ← m.property? id
  let c ← m.cls? (← id.owner.cls?)
  match p.kind with
  | .regular r =>
    if !r.primaryKey || !c.isEnum then none
    else
      let d ← m.domain? (← r.domain.target)
      if d.autoGeneratedValue then none else return c.name.value ++ m.propertyName rules id
  | _ => none

/-- Puts the type of a domain around another one. -/
def wrap (outer inner : String) : String := outer.replace "{T}" inner

/-- The type of a property in a language. -/
def typeName (id : PropertyId) (language : String) : Option String := do
  let p ← m.property? id
  match p.kind with
  | .composition c =>
    let target ← m.cls? (← c.composition.target)
    let outer := ((c.domain.bind Reference.target).bind m.domain?).bind (·.type? language)
    return match outer with
      | some outer => wrap outer target.name.value
      | none => target.name.value
  | _ =>
    let leaf ← m.leafProperty id
    let leafDomain ← m.baseDomain leaf
    let inner ←
      match m.enumTypeName rules leaf with
      | some name => some name
      | none => (m.domain? leafDomain).bind (·.type? language)
    let effective ← m.effectiveDomain id
    if effective == leafDomain then return inner
    return wrap (← (← m.domain? effective).type? language) inner

/-- An endpoint parameter that is sent in the body. -/
def isBodyParam (id : PropertyId) : Bool :=
  match m.property? id with
  | none => false
  | some p =>
    match p.kind with
    | .composition _ => true
    | _ => ((m.effectiveDomain id).bind m.domain?).any (·.bodyParam)

end Model

end EntityModel
