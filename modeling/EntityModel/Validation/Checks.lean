import EntityModel.Diagnostics.Diagnostic
import EntityModel.Model.Query
import EntityModel.Naming.Name
import EntityModel.Naming.Type

/-!
# Checks of a linked model

Once all is linked, the model is looked at as a whole: what is declared twice, in what order
endpoints take their parameters, and whether each class holds together.
-/

namespace EntityModel.Validation

/-! ### Things declared twice

Classes, decorators and endpoints are told apart by module and name, domains by name, tables by
trigram.  Every declaration but the first of its key is reported, with the first one beside it.
-/

/-- Each element whose key came before, with the first of that key; `firsts` holds those met. -/
def repeatedFrom {α κ : Type} [BEq κ] (key : α → κ) : List (κ × α) → List α → List (α × α)
  | _, [] => []
  | firsts, a :: rest =>
    match firsts.lookup (key a) with
    | some first => (a, first) :: repeatedFrom key firsts rest
    | none => repeatedFrom key (firsts ++ [(key a, a)]) rest

/-- Each element whose key came before, with the first of that key. -/
def repeated {α κ : Type} [BEq κ] (key : α → κ) (as : List α) : List (α × α) :=
  repeatedFrom key [] as

def duplicate (problem : Problem) (location first : Location) : Diagnostic :=
  { problem, location, related := [(first, .firstDefinition)] }

def duplicateClasses (m : Model) : List Diagnostic :=
  (repeated (fun c => (c.ns.modulePath, c.name.value)) m.classes).map fun (c, first) =>
    duplicate (.duplicateClass c.name.value c.ns.modulePath) c.name.location first.name.location

def duplicateDecorators (m : Model) : List Diagnostic :=
  (repeated (fun d => (d.ns.modulePath, d.name.value)) m.decorators).map fun (d, first) =>
    duplicate (.duplicateDecorator d.name.value) d.name.location first.name.location

def duplicateDomains (m : Model) : List Diagnostic :=
  (repeated (fun d => d.name.value) m.domains).map fun (d, first) =>
    duplicate (.duplicateDomain d.name.value) d.name.location first.name.location

def duplicateEndpoints (m : Model) : List Diagnostic :=
  (repeated (fun e => (e.ns.modulePath, e.name.value)) m.endpoints).map fun (e, first) =>
    duplicate (.duplicateEndpoint e.name.value e.ns.modulePath) e.name.location first.name.location

/-- The classes that have a trigram. -/
def withTrigrams (m : Model) : List (Class × Located String) :=
  m.classes.filterMap fun c => c.trigram.map (c, ·)

def duplicateTrigrams (m : Model) : List Diagnostic :=
  (repeated (fun (_, trigram) => trigram.value) (withTrigrams m)).map
      fun ((c, trigram), (first, taken)) =>
    { problem := .duplicateTrigram trigram.value c.name.value first.name.value
      location := trigram.location
      related := [(taken.location, .trigramOf first.name.value)] }

def duplicates (m : Model) : List Diagnostic :=
  duplicateClasses m ++ duplicateDecorators m ++ duplicateDomains m ++ duplicateEndpoints m
    ++ duplicateTrigrams m

/-! ### The order of endpoint parameters

Parameters of the query come after those of the route and the body.
-/

/-- The same but for the case of ASCII letters. -/
def equalsIgnoringCase (s t : String) : Bool :=
  s.toList.map Char.toLower == t.toList.map Char.toLower

/-- A parameter that stands in the route of its endpoint. -/
def isRouteParam (m : Model) (rules : NamingRules) (e : Endpoint) (p : Property) : Bool :=
  (Route.parameterNames e.route).any fun name => equalsIgnoringCase name (m.propertyName rules p.id)

def isQueryParam (m : Model) (rules : NamingRules) (e : Endpoint) (p : Property) : Bool :=
  !isRouteParam m rules e p && !m.isBodyParam p.id

/-- The parameters that are not of the query, behind the first one that is. -/
def parameterProblems (m : Model) (rules : NamingRules) (e : Endpoint) : List Diagnostic :=
  let behind := e.params.dropWhile fun p => !isQueryParam m rules e p
  (behind.filter fun p => !isQueryParam m rules e p).map fun p =>
    { problem := .parameterOrder (m.propertyName rules p.id) e.name.value, location := p.location }

/-! ### Classes that hold together

A class has one primary key property unless settings allow more, its properties have different
names, it has one base class in each language, and its values set what has to be set.
-/

variable (m : Model) (rules : NamingRules)

def compositeKey (c : Class) : List Diagnostic :=
  if rules.allowCompositePrimaryKey then []
  else match m.primaryKey c.id with
    | _ :: second :: _ =>
      [{ problem := .compositePrimaryKey c.name.value, location := second.location }]
    | _ => []

/-- The properties of a class that have a name, with it. -/
def namedProperties (c : Class) : List (Property × String) :=
  (m.classProperties c.id).filterMap fun p => (m.propertyName? rules p.id).map (p, ·)

/-- Names that came before; a property of a decorator is reported at the class. -/
def duplicateProperties (c : Class) : List Diagnostic :=
  (repeated Prod.snd (namedProperties m rules c)).map fun ((p, name), _) =>
    { problem := .duplicateProperty name c.name.value
      location := if p.owner.cls? == some c.id then p.location else c.name.location }

/-- How many base classes a class has in a language. -/
def baseCount (c : Class) (language : String) : Nat :=
  let decorators := c.decorators.filterMap fun usage => usage.decorator.target.bind m.decorator?
  let bases := decorators.countP fun d => (d.implementations.lookup language).any (·.base.isSome)
  bases + if c.parent.isSome then 1 else 0

/-- The first language in which a class has several bases. -/
def severalBases (c : Class) : List Diagnostic :=
  match decoratorLanguages.find? fun language => baseCount m c language > 1 with
  | some language =>
    [{ problem := .severalBases c.name.value language, location := c.name.location }]
  | none => []

/-- What every value has to set: the key unless it is generated, and required associations.  Other
required properties are seen to when a file is loaded. -/
def isRequiredInValues (p : Property) : Bool :=
  match p.kind with
  | .regular r => r.primaryKey && !(r.domain.target.bind m.domain?).any (·.autoGeneratedValue)
  | .association a => a.required || a.primaryKey
  | _ => false

def missingValues (c : Class) : List Diagnostic :=
  let required := (m.classProperties c.id).filter (isRequiredInValues m)
  c.values.flatMap fun v =>
    (required.filter fun p => (v.get? p.id).isNone).map fun p =>
      { problem := .missingRequiredValue v.name.value c.name.value (m.propertyName rules p.id)
        location := v.name.location }

def classProblems (c : Class) : List Diagnostic :=
  compositeKey m rules c ++ duplicateProperties m rules c ++ severalBases m c
    ++ missingValues m rules c

/-- An association without a property needs a class with a single primary key. -/
def associationProblem (p : Property) : Option Diagnostic := do
  let a ← p.association?
  let target ← a.association.target
  if a.property.isSome || (m.primaryKey target).length == 1 then none
  let name := ((m.cls? target).map (·.name.value)).getD ""
  return { problem := .invalidAssociationTarget name, location := a.association.location }

end EntityModel.Validation
