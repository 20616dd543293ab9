import EntityModel.Model.File

/-!
# Models

A model is a list of files in the order of their ids.  Everything declared in it is reached through
its id, or in model order: file by file, each in order of declaration.
-/

namespace EntityModel

structure Model where
  files : List ModelFile
deriving Repr, DecidableEq

instance : Inhabited Model := ⟨⟨[]⟩⟩

namespace Endpoint

/-- The parameters, then what is returned. -/
def properties (e : Endpoint) : List Property := e.params ++ e.returns.toList

end Endpoint

namespace ModelFile

/-- All properties: of the classes, then of the decorators, then of the endpoints. -/
def properties (f : ModelFile) : List Property :=
  f.classes.flatMap Class.properties ++ f.decorators.flatMap Decorator.properties
    ++ f.endpoints.flatMap Endpoint.properties

/-- Carries the tag. -/
def hasTag (f : ModelFile) (tag : String) : Bool := f.tags.contains tag

end ModelFile

namespace Model

variable (m : Model)

/-! ### By id -/

def file? (id : FileId) : Option ModelFile := m.files.find? (·.id == id)

def domain? (id : DomainId) : Option Domain := do (← m.file? id.file).domains[id.index]?

def decorator? (id : DecoratorId) : Option Decorator := do (← m.file? id.file).decorators[id.index]?

def cls? (id : ClassId) : Option Class := do (← m.file? id.file).classes[id.index]?

def endpoint? (id : EndpointId) : Option Endpoint := do (← m.file? id.file).endpoints[id.index]?

/-- What an owner declares; none if there is no such owner. -/
def ownedBy? : PropertyOwner → Option (List Property)
  | .cls id => (m.cls? id).map Class.properties
  | .decorator id => (m.decorator? id).map Decorator.properties
  | .params id => (m.endpoint? id).map Endpoint.params
  | .returns id => (m.endpoint? id).map fun e => e.returns.toList

/-- A property by its place; the one returned is found under any index. -/
def property? (id : PropertyId) : Option Property :=
  match id.owner with
  | .returns e => (m.endpoint? e).bind Endpoint.returns
  | owner => do (← m.ownedBy? owner)[id.index]?

/-! ### In model order -/

def domains : List Domain := m.files.flatMap ModelFile.domains

def decorators : List Decorator := m.files.flatMap ModelFile.decorators

def classes : List Class := m.files.flatMap ModelFile.classes

def endpoints : List Endpoint := m.files.flatMap ModelFile.endpoints

/-- All properties of the model: of the classes, then of the decorators, then of the endpoints. -/
def properties : List Property :=
  m.classes.flatMap Class.properties ++ m.decorators.flatMap Decorator.properties
    ++ m.endpoints.flatMap Endpoint.properties

def fileNamed? (name : String) : Option ModelFile := m.files.find? (·.name == name)

/-- The first class of the name. -/
def classNamed? (name : String) : Option Class := m.classes.find? (·.name.value == name)

/-- The first domain of the name. -/
def domainNamed? (name : String) : Option Domain := m.domains.find? (·.name.value == name)

end Model

/-! ### Changing properties in place -/

namespace Endpoint

def mapParts (params : List Property → List Property) (returns : Property → Property)
    (e : Endpoint) :
    Endpoint :=
  { e with params := params e.params, returns := e.returns.map returns }

end Endpoint

namespace ModelFile

def mapClasses (g : Class → Class) (f : ModelFile) : ModelFile :=
  { f with classes := f.classes.map g }

/-- Changes every property list by `lists` and every returned property by `returns`. -/
def mapLists (lists : PropertyOwner → List Property → List Property) (returns : Property → Property)
    (f : ModelFile) : ModelFile :=
  { f with
    classes := f.classes.map fun c => { c with properties := lists (.cls c.id) c.properties }
    decorators := f.decorators.map fun d =>
      { d with properties := lists (.decorator d.id) d.properties }
    endpoints := f.endpoints.map fun e => e.mapParts (lists (.params e.id)) returns }

def mapProperties (g : Property → Property) (f : ModelFile) : ModelFile :=
  f.mapLists (fun _ ps => ps.map g) g

end ModelFile

namespace Model

def mapFiles (g : ModelFile → ModelFile) (m : Model) : Model := ⟨m.files.map g⟩

def mapClasses (g : Class → Class) (m : Model) : Model := m.mapFiles (·.mapClasses g)

def mapProperties (g : Property → Property) (m : Model) : Model := m.mapFiles (·.mapProperties g)

end Model

end EntityModel
