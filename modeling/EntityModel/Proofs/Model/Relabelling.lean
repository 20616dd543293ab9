import EntityModel.Model.Basic
import Mathlib.Tactic.Simps.Basic

/-!
# Relabelling files

A relabelling replaces the id of every file in a model by another one: in the ids of declarations
and properties, in every place of the source and in what references point to.  It may also drop what
references point to, which is how a file looks that was only loaded.  Names, texts and the order of
everything stay.  Since ids are dealt out in order of loading, relabelling is what stands between
two stores that loaded the same files in different orders.
-/

namespace EntityModel

/-- What becomes of file ids, and whether references keep what they point to. -/
structure Relabelling where
  file : FileId → FileId
  keep : Bool := true

class Relabelled (α : Type) where
  relabel : Relabelling → α → α

/-! ### Ids and places -/

variable (ρ : Relabelling)

instance : Relabelled FileId := ⟨fun ρ id => ρ.file id⟩

@[simps]
def Location.relabel (l : Location) : Location := { l with file := ρ.file l.file }

@[simps]
def Located.relabel {α : Type} (x : Located α) : Located α :=
  { x with location := x.location.relabel ρ }

@[simps]
def Id.relabel {k : Kind} (id : Id k) : Id k := { id with file := ρ.file id.file }

instance (k : Kind) : Relabelled (Id k) := ⟨fun ρ id => id.relabel ρ⟩

def PropertyOwner.relabel : PropertyOwner → PropertyOwner
  | .cls id => .cls (id.relabel ρ)
  | .decorator id => .decorator (id.relabel ρ)
  | .params id => .params (id.relabel ρ)
  | .returns id => .returns (id.relabel ρ)

@[simps]
def PropertyId.relabel (id : PropertyId) : PropertyId := { id with owner := id.owner.relabel ρ }

instance : Relabelled PropertyId := ⟨PropertyId.relabel⟩

@[simps]
def Reference.relabel {α : Type} [Relabelled α] (r : Reference α) : Reference α where
  name := r.name.relabel ρ
  target := if ρ.keep then r.target.map (Relabelled.relabel ρ) else none

/-! ### Properties -/

@[simps]
def RegularProperty.relabel (p : RegularProperty) : RegularProperty :=
  { p with name := p.name.relabel ρ, domain := p.domain.relabel ρ }

@[simps]
def AssociationProperty.relabel (p : AssociationProperty) : AssociationProperty :=
  { p with
    association := p.association.relabel ρ
    name := p.name.map (·.relabel ρ)
    asDomain := p.asDomain.map (·.relabel ρ)
    property := p.property.map (·.relabel ρ) }

@[simps]
def CompositionProperty.relabel (p : CompositionProperty) : CompositionProperty :=
  { p with
    name := p.name.relabel ρ
    composition := p.composition.relabel ρ
    domain := p.domain.map (·.relabel ρ) }

@[simps]
def AliasProperty.relabel (p : AliasProperty) : AliasProperty :=
  { p with
    cls := p.cls.relabel ρ
    property := p.property.map (·.relabel ρ)
    only := p.only.map (·.relabel ρ)
    exclude := p.exclude.map (·.relabel ρ)
    name := p.name.map (·.relabel ρ)
    asDomain := p.asDomain.map (·.relabel ρ) }

def PropertyKind.relabel : PropertyKind → PropertyKind
  | .regular p => .regular (p.relabel ρ)
  | .association p => .association (p.relabel ρ)
  | .composition p => .composition (p.relabel ρ)
  | .propertyAlias p => .propertyAlias (p.relabel ρ)

@[simps]
def Property.relabel (p : Property) : Property where
  id := p.id.relabel ρ
  location := p.location.relabel ρ
  kind := p.kind.relabel ρ

/-! ### Declarations -/

@[simps]
def Domain.relabel (d : Domain) : Domain :=
  { d with
    id := d.id.relabel ρ
    name := d.name.relabel ρ
    asDomains := d.asDomains.map fun (word, r) => (word, r.relabel ρ)
    location := d.location.relabel ρ }

@[simps]
def Decorator.relabel (d : Decorator) : Decorator :=
  { d with
    id := d.id.relabel ρ
    name := d.name.relabel ρ
    properties := d.properties.map (·.relabel ρ)
    location := d.location.relabel ρ }

@[simps]
def DecoratorUsage.relabel (u : DecoratorUsage) : DecoratorUsage :=
  { u with decorator := u.decorator.relabel ρ }

@[simps]
def ValueField.relabel (v : ValueField) : ValueField where
  property := v.property.relabel ρ
  value := v.value.relabel ρ

@[simps]
def ReferenceValue.relabel (v : ReferenceValue) : ReferenceValue where
  name := v.name.relabel ρ
  fields := v.fields.map (·.relabel ρ)

@[simps]
def Class.relabel (c : Class) : Class :=
  { c with
    id := c.id.relabel ρ
    name := c.name.relabel ρ
    trigram := c.trigram.map (·.relabel ρ)
    parent := c.parent.map (·.relabel ρ)
    decorators := c.decorators.map (·.relabel ρ)
    properties := c.properties.map (·.relabel ρ)
    uniqueKeys := c.uniqueKeys.map fun key => key.map (·.relabel ρ)
    values := c.values.map (·.relabel ρ)
    defaultProperty := c.defaultProperty.map (·.relabel ρ)
    orderProperty := c.orderProperty.map (·.relabel ρ)
    flagProperty := c.flagProperty.map (·.relabel ρ)
    location := c.location.relabel ρ }

@[simps]
def Endpoint.relabel (e : Endpoint) : Endpoint :=
  { e with
    id := e.id.relabel ρ
    name := e.name.relabel ρ
    params := e.params.map (·.relabel ρ)
    returns := e.returns.map (·.relabel ρ)
    location := e.location.relabel ρ }

@[simps]
def Alias.relabel (a : Alias) : Alias where
  id := a.id.relabel ρ
  file := a.file.relabel ρ
  classes := a.classes.map fun rs => rs.map (·.relabel ρ)
  endpoints := a.endpoints.map fun rs => rs.map (·.relabel ρ)
  location := a.location.relabel ρ

def AliasedEntity.relabel : AliasedEntity → AliasedEntity
  | .cls id => .cls (id.relabel ρ)
  | .endpoint id => .endpoint (id.relabel ρ)

@[simps]
def ResolvedAlias.relabel (a : ResolvedAlias) : ResolvedAlias where
  aliasId := a.aliasId.relabel ρ
  entity := a.entity.relabel ρ
  location := a.location.relabel ρ

@[simps]
def ModelFile.relabel (f : ModelFile) : ModelFile :=
  { f with
    id := ρ.file f.id
    uses := f.uses.map (·.relabel ρ)
    domains := f.domains.map (·.relabel ρ)
    decorators := f.decorators.map (·.relabel ρ)
    classes := f.classes.map (·.relabel ρ)
    endpoints := f.endpoints.map (·.relabel ρ)
    aliases := f.aliases.map (·.relabel ρ)
    resolvedAliases := f.resolvedAliases.map (·.relabel ρ)
    uselessImports := f.uselessImports.map (·.relabel ρ) }

end EntityModel
