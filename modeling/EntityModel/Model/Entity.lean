import EntityModel.Model.Namespace
import EntityModel.Model.Property

/-!
# Domains, decorators, classes, endpoints and aliases

What the documents of a model file declare.
-/

namespace EntityModel

/-! ### Domains -/

/-- The languages that a domain may be written in. -/
def domainLanguages : List String := ["csharp", "java", "ts", "php", "sql"]

structure DomainImplementation where
  /-- The type; `{T}` in it stands for the type that the domain is put around. -/
  type : Option String := none
  imports : List String := []
  annotations : List String := []
deriving Repr, DecidableEq

/-- A type shared by many properties. -/
structure Domain where
  id : DomainId
  name : Located String
  label : Option String
  length : Option Nat
  scale : Option Nat
  autoGeneratedValue : Bool
  mediaType : Option String
  /-- Endpoint parameters of this domain go into the body. -/
  bodyParam : Bool
  /-- The domains that stand for this one under another name, such as `list`. -/
  asDomains : OrderedMap DomainReference
  implementations : OrderedMap DomainImplementation
  location : Location
deriving Repr, DecidableEq

def Domain.type? (d : Domain) (language : String) : Option String :=
  (d.implementations.lookup language).bind DomainImplementation.type

/-! ### Decorators -/

/-- The languages that a decorator may be written in. -/
def decoratorLanguages : List String := ["csharp", "java", "ts", "php"]

structure DecoratorImplementation where
  base : Option String := none
  implements : List String := []
  annotations : List String := []
deriving Repr, DecidableEq

/-- Properties and annotations that classes share. -/
structure Decorator where
  id : DecoratorId
  name : Located String
  description : String
  properties : List Property
  implementations : OrderedMap DecoratorImplementation
  ns : Namespace
  location : Location
deriving Repr, DecidableEq

/-- The languages in which the decorator gives its classes a base. -/
def Decorator.extendsLanguages (d : Decorator) : List String :=
  (d.implementations.filter fun (_, i) => i.base.isSome).map Prod.fst

/-! ### Classes -/

structure DecoratorUsage where
  decorator : DecoratorReference
  parameters : List String
deriving Repr, DecidableEq

/-- One `field: literal` of a value. -/
structure ValueField where
  property : PropertyReference
  value : Located String
deriving Repr, DecidableEq

/-- A named instance of a reference class. -/
structure ReferenceValue where
  name : Located String
  fields : List ValueField
deriving Repr, DecidableEq

namespace ReferenceValue

def get? (v : ReferenceValue) (property : PropertyId) : Option String :=
  (v.fields.find? fun f => f.property.target == some property).map (·.value.value)

def getByName? (v : ReferenceValue) (name : String) : Option String :=
  (v.fields.find? fun f => f.property.text == name).map (·.value.value)

end ReferenceValue

structure Class where
  id : ClassId
  name : Located String
  /-- Three letters before the names of the columns. -/
  trigram : Option (Located String)
  sqlName : String
  pluralName : String
  label : String
  comment : String
  parent : Option ClassReference
  decorators : List DecoratorUsage
  properties : List Property
  uniqueKeys : List (List PropertyReference)
  values : List ReferenceValue
  reference : Bool
  isAbstract : Bool
  defaultProperty : Option PropertyReference
  orderProperty : Option PropertyReference
  flagProperty : Option PropertyReference
  ns : Namespace
  location : Location
deriving Repr, DecidableEq

namespace Class

def qualifiedName (c : Class) : String := c.ns.qualify c.name.value

def property? (c : Class) (id : PropertyId) : Option Property :=
  c.properties.find? (·.id == id)

/-- The primary key properties of the class itself. -/
def ownPrimaryKey (c : Class) : List Property := c.properties.filter Property.isPrimaryKey

/-- A reference class with values. -/
def isEnum (c : Class) : Bool := c.reference && !c.values.isEmpty

end Class

/-! ### Endpoints -/

inductive HttpMethod
  | get
  | post
  | put
  | patch
  | delete
deriving Repr, DecidableEq

namespace HttpMethod

def name : HttpMethod → String
  | get => "GET"
  | post => "POST"
  | put => "PUT"
  | patch => "PATCH"
  | delete => "DELETE"

def ofName? (s : String) : Option HttpMethod :=
  [get, post, put, patch, delete].find? (·.name == s)

end HttpMethod

structure Endpoint where
  id : EndpointId
  name : Located String
  method : HttpMethod
  route : String
  description : String
  params : List Property
  returns : Option Property
  preservePropertyCasing : Bool
  ns : Namespace
  location : Location
deriving Repr, DecidableEq

namespace Route

/-- The names between braces; a brace that is never closed ends the search. -/
def parameterNamesFrom : Nat → List Char → List (List Char)
  | 0, _ => []
  | fuel + 1, route =>
    match route.dropWhile (· != '{') with
    | [] => []
    | _ :: rest =>
      match rest.dropWhile (· != '\x7d') with
      | [] => []
      | _ :: behind => rest.takeWhile (· != '\x7d') :: parameterNamesFrom fuel behind

def parameterNames (route : String) : List String :=
  (parameterNamesFrom (route.length + 1) route.toList).map String.ofList

/-- A route below the one that its file gives to all endpoints; one slash stands between them. -/
def full (route : String) (start : Option String) : String :=
  match start with
  | none => route
  | some start =>
    if start.isEmpty then route
    else
      let head := (start.toList.reverse.dropWhile (· == '/')).reverse
      String.ofList (head ++ '/' :: route.toList.dropWhile (· == '/'))

end Route

/-! ### Aliases -/

/-- A block that brings entities of another file into this one. -/
structure Alias where
  id : AliasId
  file : FileReference
  classes : Option (List ClassReference)
  endpoints : Option (List EndpointReference)
  location : Location
deriving Repr, DecidableEq

/-- Neither list is given: everything of the file is meant. -/
def Alias.isWildcard (a : Alias) : Bool := a.classes.isNone && a.endpoints.isNone

inductive AliasedEntity
  | cls (id : ClassId)
  | endpoint (id : EndpointId)
deriving Repr, DecidableEq

/-- An entity brought in, and where the alias asks for it. -/
structure ResolvedAlias where
  aliasId : AliasId
  entity : AliasedEntity
  location : Location
deriving Repr, DecidableEq

end EntityModel
