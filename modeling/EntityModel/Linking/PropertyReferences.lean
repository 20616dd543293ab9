import EntityModel.Diagnostics.Diagnostic
import EntityModel.Linking.Scope
import EntityModel.Naming.Name

/-!
# References to properties

An association may name the property that it points to, and a class names properties of its own.
-/

namespace EntityModel.Linking

/-! ### Properties that associations name

An association may name the property that it points to.  That name may itself be derived from
another association, so the names are resolved in rounds: each round uses the names known after the
one before, and the rounds end when one of them resolves nothing.
-/

/-- None of the properties of a class still stands for a choice of properties. -/
def isSettled (m : Model) (id : ClassId) : Bool :=
  !(m.classProperties id).any fun p => p.alias?.any AliasProperty.needsExpansion

/-- The class of an association and the name that is still to be found on it. -/
def openTarget (p : Property) : Option (ClassId × PropertyReference) := do
  let a ← p.association?
  let reference ← a.property
  let cls ← a.association.target
  if reference.target.isSome then none else return (cls, reference)

/-- What the open name of an association stands for; with `settledOnly`, other classes wait. -/
def associationTarget (m : Model) (rules : NamingRules) (settledOnly : Bool) (p : Property) :
    Option PropertyId := do
  let (cls, reference) ← openTarget p
  if settledOnly && !isSettled m cls then none
  m.findProperty rules cls reference.text

def withAssociationTarget (target : Option PropertyId) (p : Property) : Property :=
  match p.kind, target with
  | .association a, some id =>
    { p with kind := .association { a with property := a.property.map (·.resolve id) } }
  | _, _ => p

/-- Resolves all names that can be resolved in the model as it is. -/
def associationRound (m : Model) (rules : NamingRules) (settledOnly : Bool) : Model :=
  m.mapProperties fun p => withAssociationTarget (associationTarget m rules settledOnly p) p

def associationRounds (rules : NamingRules) (settledOnly : Bool) : Nat → Model → Model
  | 0, m => m
  | fuel + 1, m =>
    if m.properties.any fun p => (associationTarget m rules settledOnly p).isSome then
      associationRounds rules settledOnly fuel (associationRound m rules settledOnly)
    else m

/-- Repeats the rounds; each but the last resolves a name. -/
def resolveAssociations (rules : NamingRules) (settledOnly : Bool) (m : Model) : Model :=
  associationRounds rules settledOnly (m.properties.countP (fun p => (openTarget p).isSome) + 1) m

def className (m : Model) (id : ClassId) : String := ((m.cls? id).map (·.name.value)).getD ""

/-- Names of associations that no property goes by. -/
def associationProblems (m : Model) : List Diagnostic :=
  m.properties.filterMap fun p => do
    let (cls, reference) ← openTarget p
    return { problem := .propertyNotFound reference.text (className m cls)
             location := reference.location }

/-! ### Properties that classes name

Unique keys, values and the default, order and flag properties name properties of their own class.
They are looked up once all names of the model are known.
-/

/-- The class with every property that it names looked up by `find`. -/
def resolveClassProperties (find : String → Option PropertyId) (c : Class) : Class :=
  { c with
    defaultProperty := c.defaultProperty.map (resolveBy find)
    orderProperty := c.orderProperty.map (resolveBy find)
    flagProperty := c.flagProperty.map (resolveBy find)
    uniqueKeys := c.uniqueKeys.map fun key => key.map (resolveBy find)
    values := c.values.map fun v =>
      { v with fields := v.fields.map fun f => { f with property := resolveBy find f.property } } }

def resolvePropertyReferences (rules : NamingRules) (m : Model) : Model :=
  m.mapClasses fun c => resolveClassProperties (m.findProperty rules c.id) c

def propertyMissing (c : Class) (r : PropertyReference) : Diagnostic :=
  { problem := .propertyNotFound r.text c.name.value, location := r.location }

def uniqueKeyMissing (c : Class) (r : PropertyReference) : Diagnostic :=
  { problem := .uniqueKeyPropertyNotFound r.text c.name.value, location := r.location }

def isOpen (r : PropertyReference) : Bool := r.target.isNone

/-- What a class names and has not. -/
def classPropertyProblems (c : Class) : List Diagnostic :=
  let special := [c.defaultProperty, c.orderProperty, c.flagProperty].filterMap id
  let fields := c.values.flatMap fun v => v.fields.map ValueField.property
  (special.filter isOpen).map (propertyMissing c)
    ++ (c.uniqueKeys.flatten.filter isOpen).map (uniqueKeyMissing c)
    ++ (fields.filter isOpen).map (propertyMissing c)

def propertyReferenceProblems (m : Model) : List Diagnostic :=
  m.classes.flatMap classPropertyProblems

end EntityModel.Linking
