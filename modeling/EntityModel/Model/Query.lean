import EntityModel.Model.Basic

/-!
# Questions about a model

The properties of a class include those of its decorators; what it inherits is counted apart.
Chains of parents may run into a cycle while a model is being written, so they are followed up to
the first repetition.
-/

namespace EntityModel

/-- What is met by following `next`, up to the first element that was met before. -/
def follow {α : Type} [DecidableEq α] (next : α → Option α) : Nat → List α → Option α → List α
  | 0, _, _ => []
  | _, _, none => []
  | fuel + 1, seen, some a =>
    if a ∈ seen then [] else a :: follow next fuel (a :: seen) (next a)

/-- The elements of a list, each where it comes first. -/
def firstOccurrences {α : Type} [BEq α] : List α → List α
  | [] => []
  | a :: rest => a :: (firstOccurrences rest).filter (· != a)

namespace Model

variable (m : Model)

/-- The properties of a class: its own, then those of each decorator, in order. -/
def propertiesOf (c : Class) : List Property :=
  c.properties ++ c.decorators.flatMap fun usage =>
    match usage.decorator.target.bind m.decorator? with
    | some d => d.properties
    | none => []

def classProperties (id : ClassId) : List Property :=
  match m.cls? id with
  | some c => m.propertiesOf c
  | none => []

def parent? (id : ClassId) : Option ClassId := do (← (← m.cls? id).parent).target

/-- The chain of parents, nearest first. -/
def ancestors (id : ClassId) : List ClassId :=
  follow m.parent? (m.classes.length + 1) [id] (m.parent? id)

/-- A class that its own chain of parents comes back to. -/
def inheritsFromItself (id : ClassId) : Bool :=
  (follow m.parent? (m.classes.length + 1) [] (m.parent? id)).contains id

/-- What the chain of parents hands down, the root first. -/
def extendedProperties (id : ClassId) : List Property :=
  (m.ancestors id).reverse.flatMap m.classProperties

/-- The primary key of the class itself: decorators count, parents do not. -/
def primaryKey (id : ClassId) : List Property := (m.classProperties id).filter Property.isPrimaryKey

/-- The primary key if it is one property. -/
def singlePrimaryKey (id : ClassId) : Option Property :=
  match m.primaryKey id with
  | [p] => some p
  | _ => none

/-- A class stands for a table if it is concrete and has a primary key. -/
def isPersistent (id : ClassId) : Bool :=
  match m.cls? id with
  | some c => !c.isAbstract && !(m.primaryKey id).isEmpty
  | none => false

/-- The property that an association points to: the one it names, else the single primary key. -/
def keyOf (a : AssociationProperty) : Option PropertyId :=
  match a.property with
  | some reference => reference.target
  | none => do return (← m.singlePrimaryKey (← a.association.target)).id

end Model

/-- The class that a property points to. -/
def Property.pointsTo (p : Property) : Option ClassId :=
  match p.kind with
  | .regular _ => none
  | .association a => a.association.target
  | .composition c => c.composition.target
  | .propertyAlias a => a.cls.target

/-- The classes of other files that a file points to: first the parents, then through properties. -/
def ModelFile.referencedClasses (f : ModelFile) : List ClassId :=
  let parents := f.classes.filterMap fun c => c.parent.bind Reference.target
  firstOccurrences ((parents ++ f.properties.filterMap Property.pointsTo).filter (·.file != f.id))

end EntityModel
