import EntityModel.Loading.Property
import EntityModel.Text.Words

/-!
# Reading decorators, classes and endpoints

What the entities of a file leave out is derived from their names while they are read: the plural,
the name of the table and the label of a class.
-/

namespace EntityModel.Loading

open Source

/-- What entities take from their file. -/
structure Context where
  file : FileId
  ns : Namespace
  naming : NamingRules

/-! ### Decorators -/

def decoratorImplementation : Read DecoratorImplementation :=
  Read.mapping (fun (i : DecoratorImplementation) key => do
    match key.value with
    | "extends" => return { i with base := ← Read.optionalString }
    | "implements" => return { i with implements := ← Read.stringList }
    | "annotations" => return { i with annotations := ← Read.stringList }
    | _ => Read.unknownKey .decoratorImplementation key) {}

structure DecoratorDraft where
  name : Option (Located String) := none
  description : String := ""
  properties : List PropertyDraft := []
  implementations : OrderedMap DecoratorImplementation := []

def DecoratorDraft.set (d : DecoratorDraft) (key : Located String) : Read DecoratorDraft := do
  match key.value with
  | "name" => return { d with name := ← Read.optionalScalar }
  | "description" => return { d with description := ← Read.string }
  | "properties" => return { d with properties := ← propertyList }
  | language =>
    if decoratorLanguages.contains language then
      return { d with implementations :=
        d.implementations.put language (← decoratorImplementation) }
    else Read.unknownKey .decorator key

def decorator (ctx : Context) (id : DecoratorId) (location : Location) : Read Decorator := do
  let d ← Read.mapping DecoratorDraft.set {}
  let name ← Read.require d.name .decoratorName location
  return {
    id, name, location
    description := d.description
    properties := own (.decorator id) d.properties
    implementations := d.implementations
    ns := ctx.ns }

/-! ### Classes -/

/-- A decorator by its name, or with parameters. -/
def decoratorUsage : Read DecoratorUsage := do
  if ← Read.isNext .mappingStart then
    let location ← Read.location
    let (decorator, parameters) ← Read.mapping
      (fun (usage : Option (Located String) × List String) key => do
        match key.value with
        | "decorator" => return (← Read.optionalScalar, usage.2)
        | "parameters" => return (usage.1, ← Read.stringList)
        | _ => Read.unknownKey .decoratorUsage key) (none, [])
    let decorator ← Read.require decorator .usedDecorator location
    return ⟨.ofName decorator, parameters⟩
  else return ⟨.ofName (← Read.scalar), []⟩

/-- The fields of a value; a field without a literal is left out. -/
def valueFields : Read (List ValueField) :=
  Read.mapping (fun fields field => do
    match ← Read.optionalScalar with
    | some value => return fields ++ [⟨.ofName field, value⟩]
    | none => return fields) []

def referenceValues : Read (List ReferenceValue) :=
  Read.mapping (fun values name => do return values ++ [⟨name, ← valueFields⟩]) []

structure ClassDraft where
  name : Option (Located String) := none
  trigram : Option (Located String) := none
  sqlName : Option String := none
  pluralName : Option String := none
  label : Option String := none
  comment : String := ""
  parent : Option ClassReference := none
  reference : Bool := false
  isAbstract : Bool := false
  decorators : List DecoratorUsage := []
  properties : Option (List PropertyDraft) := none
  uniqueKeys : List (List PropertyReference) := []
  values : List ReferenceValue := []
  defaultProperty : Option PropertyReference := none
  orderProperty : Option PropertyReference := none
  flagProperty : Option PropertyReference := none

def optionalReference {α : Type} : Read (Option (Reference α)) :=
  return (← Read.optionalScalar).map Reference.ofName

def ClassDraft.set (d : ClassDraft) (key : Located String) : Read ClassDraft := do
  match key.value with
  | "name" => return { d with name := ← Read.optionalScalar }
  | "trigram" => return { d with trigram := ← Read.optionalScalar }
  | "sqlName" => return { d with sqlName := ← Read.optionalString }
  | "pluralName" => return { d with pluralName := ← Read.optionalString }
  | "label" => return { d with label := ← Read.optionalString }
  | "comment" => return { d with comment := ← Read.string }
  | "extends" => return { d with parent := ← optionalReference }
  | "reference" => return { d with reference := ← Read.bool }
  | "abstract" => return { d with isAbstract := ← Read.bool }
  | "decorators" => return { d with decorators := ← Read.sequence decoratorUsage }
  | "properties" => return { d with properties := some (← propertyList) }
  | "unique" =>
    let groups ← Read.sequence (return references (← Read.scalarList))
    return { d with uniqueKeys := d.uniqueKeys ++ groups }
  | "values" =>
    if d.properties.isNone then Read.fail .valuesBeforeProperties key.location
    return { d with values := ← referenceValues }
  | "defaultProperty" => return { d with defaultProperty := ← optionalReference }
  | "orderProperty" => return { d with orderProperty := ← optionalReference }
  | "flagProperty" => return { d with flagProperty := ← optionalReference }
  | _ => Read.unknownKey .cls key

/-- The names of the fields that every value must set. -/
def requiredFields (properties : List PropertyDraft) : List String :=
  (properties.filter fun p => p.kind.isRequiredField).filterMap fun p =>
    p.kind.declaredName?.map Located.value

/-- Every value sets every required field. -/
def checkValues (cls : String) (properties : List PropertyDraft) (values : List ReferenceValue) :
    Read Unit :=
  values.forM fun value =>
    (requiredFields properties).forM fun field => do
      if (value.getByName? field).isNone then
        Read.fail (.valueWithoutField value.name.value cls field) value.name.location

def cls (ctx : Context) (id : ClassId) (location : Location) : Read Class := do
  let d ← Read.mapping ClassDraft.set {}
  let name ← Read.require d.name .className location
  let properties := d.properties.getD []
  checkValues name.value properties d.values
  let pluralName := d.pluralName.getD (Text.pluralize name.value)
  let tableName := if ctx.naming.pluralizeTableNames then pluralName else name.value
  return {
    id, name, location, pluralName
    trigram := d.trigram
    sqlName := d.sqlName.getD (Text.constantCase tableName)
    label := d.label.getD name.value
    comment := d.comment
    parent := d.parent
    decorators := d.decorators
    properties := own (.cls id) properties
    uniqueKeys := d.uniqueKeys
    values := d.values
    reference := d.reference
    isAbstract := d.isAbstract
    defaultProperty := d.defaultProperty
    orderProperty := d.orderProperty
    flagProperty := d.flagProperty
    ns := ctx.ns }

/-! ### Endpoints -/

structure EndpointDraft where
  name : Option (Located String) := none
  method : Option HttpMethod := none
  route : String := ""
  description : String := ""
  params : List PropertyDraft := []
  returns : Option PropertyDraft := none
  preservePropertyCasing : Bool := false

def EndpointDraft.set (d : EndpointDraft) (key : Located String) : Read EndpointDraft := do
  match key.value with
  | "name" => return { d with name := ← Read.optionalScalar }
  | "method" =>
    let s ← Read.scalar
    match HttpMethod.ofName? s.value with
    | some method => return { d with method := some method }
    | none => Read.fail (.unknownMethod s.value) s.location
  | "route" => return { d with route := ← Read.string }
  | "description" => return { d with description := ← Read.string }
  | "params" => return { d with params := ← propertyList }
  | "returns" => return { d with returns := some (← property) }
  | "preservePropertyCasing" => return { d with preservePropertyCasing := ← Read.bool }
  | _ => Read.unknownKey .endpoint key

def endpoint (ctx : Context) (id : EndpointId) (location : Location) : Read Endpoint := do
  let d ← Read.mapping EndpointDraft.set {}
  let name ← Read.require d.name .endpointName location
  let method ← Read.require d.method .endpointMethod location
  return {
    id, name, method, location
    route := d.route
    description := d.description
    params := own (.params id) d.params
    returns := (own (.returns id) d.returns.toList).head?
    preservePropertyCasing := d.preservePropertyCasing
    ns := ctx.ns }

end EntityModel.Loading
