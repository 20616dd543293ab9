import EntityModel.Model.Id

/-!
# Properties

A property is a field with a domain, an association to another class, a class held inside, or an
alias of a property elsewhere.  An alias that names no property stands for several: linking puts one
alias for each of them in its place.
-/

namespace EntityModel

inductive Cardinality
  | oneToOne
  | manyToOne
  | oneToMany
  | manyToMany
deriving Repr, DecidableEq

namespace Cardinality

def name : Cardinality → String
  | oneToOne => "oneToOne"
  | manyToOne => "manyToOne"
  | oneToMany => "oneToMany"
  | manyToMany => "manyToMany"

def ofName? (s : String) : Option Cardinality :=
  [oneToOne, manyToOne, oneToMany, manyToMany].find? (·.name == s)

/-- The cardinality seen from the other side. -/
def opposite : Cardinality → Cardinality
  | oneToOne => oneToOne
  | manyToOne => oneToMany
  | oneToMany => manyToOne
  | manyToMany => manyToMany

def isToMany : Cardinality → Bool
  | oneToMany | manyToMany => true
  | _ => false

end Cardinality

structure RegularProperty where
  name : Located String
  label : Option String
  comment : String
  primaryKey : Bool
  required : Bool
  domain : DomainReference
  defaultValue : Option String
  readonly : Bool
deriving Repr, DecidableEq

structure AssociationProperty where
  association : ClassReference
  cardinality : Cardinality
  /-- Tells several associations to one class apart. -/
  role : Option String
  name : Option (Located String)
  label : Option String
  comment : String
  primaryKey : Bool
  required : Bool
  defaultValue : Option String
  readonly : Bool
  asDomain : Option (Located String)
  /-- The property associated with, if it is not the primary key. -/
  property : Option PropertyReference
  trigram : Option String
deriving Repr, DecidableEq

structure CompositionProperty where
  name : Located String
  composition : ClassReference
  /-- The domain around the class, such as a list. -/
  domain : Option DomainReference
  label : Option String
  comment : String
deriving Repr, DecidableEq

/-- What an alias puts before or after a name. -/
inductive Affix
  | className
  | literal (text : String)
deriving Repr, DecidableEq

structure AliasProperty where
  cls : ClassReference
  property : Option PropertyReference
  only : List (Located String)
  exclude : List (Located String)
  name : Option (Located String)
  before : Option Affix
  after : Option Affix
  label : Option String
  comment : Option String
  required : Option Bool
  defaultValue : Option String
  readonly : Bool
  asDomain : Option (Located String)
deriving Repr, DecidableEq

/-- Still stands for a choice of properties. -/
def AliasProperty.needsExpansion (p : AliasProperty) : Bool := p.property.isNone

inductive PropertyKind
  | regular (p : RegularProperty)
  | association (p : AssociationProperty)
  | composition (p : CompositionProperty)
  | propertyAlias (p : AliasProperty)
deriving Repr, DecidableEq

structure Property where
  id : PropertyId
  location : Location
  kind : PropertyKind
deriving Repr, DecidableEq

namespace PropertyKind

/-- The name written in the file; associations and aliases may leave it to be derived. -/
def declaredName? : PropertyKind → Option (Located String)
  | regular p => some p.name
  | association p => p.name
  | composition p => some p.name
  | propertyAlias p => p.name

/-- What every value of the class has to set. -/
def isRequiredField : PropertyKind → Bool
  | regular p => p.required && !p.primaryKey
  | _ => false

end PropertyKind

namespace Property

def owner (p : Property) : PropertyOwner := p.id.owner

def declaredName? (p : Property) : Option (Located String) := p.kind.declaredName?

def isPrimaryKey (p : Property) : Bool :=
  match p.kind with
  | .regular p => p.primaryKey
  | .association p => p.primaryKey
  | _ => false

/-- Carries a value of its own. -/
def isField (p : Property) : Bool :=
  match p.kind with
  | .composition _ => false
  | _ => true

def label? (p : Property) : Option String :=
  match p.kind with
  | .regular p => p.label
  | .association p => p.label
  | .composition p => p.label
  | .propertyAlias p => p.label

def association? (p : Property) : Option AssociationProperty :=
  match p.kind with
  | .association a => some a
  | _ => none

def alias? (p : Property) : Option AliasProperty :=
  match p.kind with
  | .propertyAlias a => some a
  | _ => none

end Property

end EntityModel
