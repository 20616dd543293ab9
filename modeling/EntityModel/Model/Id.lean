import EntityModel.Source.Position

/-!
# Ids of what files declare

A declaration is addressed by its file and its place among the declarations of its kind there.  A
property is addressed by what it belongs to and its place in that list.
-/

namespace EntityModel

/-- The kinds of declarations. -/
inductive Kind
  | domain
  | decorator
  | cls
  | endpoint
  | fileAlias
deriving Repr, DecidableEq

structure Id (kind : Kind) where
  file : FileId
  index : Nat
deriving Repr, DecidableEq, Ord

instance (k : Kind) : Inhabited (Id k) := ⟨⟨⟨0⟩, 0⟩⟩

abbrev DomainId := Id .domain
abbrev DecoratorId := Id .decorator
abbrev ClassId := Id .cls
abbrev EndpointId := Id .endpoint
abbrev AliasId := Id .fileAlias

/-- What a property belongs to. -/
inductive PropertyOwner
  | cls (id : ClassId)
  | decorator (id : DecoratorId)
  | params (id : EndpointId)
  | returns (id : EndpointId)
deriving Repr, DecidableEq, Ord

namespace PropertyOwner

def file : PropertyOwner → FileId
  | cls id => id.file
  | decorator id => id.file
  | params id => id.file
  | returns id => id.file

def cls? : PropertyOwner → Option ClassId
  | cls id => some id
  | _ => none

end PropertyOwner

structure PropertyId where
  owner : PropertyOwner
  index : Nat
deriving Repr, DecidableEq, Ord

/-- A name written in a file, with what it stands for once the model is linked. -/
structure Reference (α : Type) where
  name : Located String
  target : Option α := none
deriving Repr, DecidableEq

namespace Reference

def ofName {α : Type} (name : Located String) : Reference α := { name }

def text {α : Type} (r : Reference α) : String := r.name.value

def location {α : Type} (r : Reference α) : Location := r.name.location

def resolve {α : Type} (r : Reference α) (target : α) : Reference α :=
  { r with target := some target }

end Reference

abbrev FileReference := Reference FileId
abbrev DomainReference := Reference DomainId
abbrev DecoratorReference := Reference DecoratorId
abbrev ClassReference := Reference ClassId
abbrev EndpointReference := Reference EndpointId
abbrev PropertyReference := Reference PropertyId

/-- A map that keeps the order in which its keys came first. -/
abbrev OrderedMap (α : Type) := List (String × α)

/-- The value of a known key is replaced where it stands; a new key goes last. -/
def OrderedMap.put {α : Type} (m : OrderedMap α) (key : String) (value : α) : OrderedMap α :=
  if m.any (·.1 == key) then m.map fun e => if e.1 == key then (key, value) else e
  else m ++ [(key, value)]

end EntityModel
