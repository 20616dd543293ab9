import EntityModel.Loading.Blocks

/-!
# Reading properties

The first key of a property tells its kind.  Properties are numbered when their owner is complete,
in the order of the file.
-/

namespace EntityModel.Loading

open Source

/-- A property that has no owner yet. -/
structure PropertyDraft where
  location : Location
  kind : PropertyKind
deriving Repr

/-- Gives the drafts to an owner, numbered in order. -/
def own (owner : PropertyOwner) (drafts : List PropertyDraft) : List Property :=
  drafts.mapIdx fun index d => ⟨⟨owner, index⟩, d.location, d.kind⟩

/-! ### Regular properties -/

structure RegularDraft where
  name : Option (Located String) := none
  label : Option String := none
  comment : String := ""
  primaryKey : Bool := false
  required : Bool := false
  domain : Option (Located String) := none
  defaultValue : Option String := none
  readonly : Bool := false

def RegularDraft.set (d : RegularDraft) (key : Located String) : Read RegularDraft := do
  match key.value with
  | "name" => return { d with name := ← Read.optionalScalar }
  | "label" => return { d with label := ← Read.optionalString }
  | "comment" => return { d with comment := (← Read.optionalString).getD "" }
  | "primaryKey" => return { d with primaryKey := ← Read.bool }
  | "required" => return { d with required := ← Read.bool }
  | "domain" => return { d with domain := ← Read.optionalScalar }
  | "defaultValue" => return { d with defaultValue := ← Read.optionalString }
  | "readonly" => return { d with readonly := ← Read.bool }
  | _ => Read.unknownKey .regular key

def RegularDraft.finish (d : RegularDraft) (location : Location) : Read RegularProperty := do
  let name ← Read.require d.name .propertyName location
  let domain ← Read.require d.domain (.propertyDomain name.value) location
  return {
    name
    domain := .ofName domain
    label := d.label
    comment := d.comment
    primaryKey := d.primaryKey
    required := d.required
    defaultValue := d.defaultValue
    readonly := d.readonly }

/-! ### Associations -/

/-- The association to a class when no further key says more. -/
def associationTo (target : Located String) : AssociationProperty where
  association := .ofName target
  cardinality := .manyToOne
  role := none
  name := none
  label := none
  comment := ""
  primaryKey := false
  required := false
  defaultValue := none
  readonly := false
  asDomain := none
  property := none
  trigram := none

def setAssociation (p : AssociationProperty) (key : Located String) : Read AssociationProperty := do
  match key.value with
  | "type" =>
    let s ← Read.scalar
    match Cardinality.ofName? s.value with
    | some cardinality => return { p with cardinality }
    | none => Read.fail (.unknownCardinality s.value) s.location
  | "role" => return { p with role := ← Read.optionalString }
  | "name" => return { p with name := ← Read.optionalScalar }
  | "label" => return { p with label := ← Read.optionalString }
  | "comment" => return { p with comment := (← Read.optionalString).getD "" }
  | "primaryKey" => return { p with primaryKey := ← Read.bool }
  | "required" => return { p with required := ← Read.bool }
  | "defaultValue" => return { p with defaultValue := ← Read.optionalString }
  | "readonly" => return { p with readonly := ← Read.bool }
  | "as" => return { p with asDomain := ← Read.optionalScalar }
  | "property" => return { p with property := (← Read.optionalScalar).map Reference.ofName }
  | "trigram" => return { p with trigram := ← Read.optionalString }
  | _ => Read.unknownKey .association key

/-! ### Compositions -/

structure CompositionDraft where
  name : Option (Located String) := none
  domain : Option (Located String) := none
  label : Option String := none
  comment : String := ""

def CompositionDraft.set (d : CompositionDraft) (key : Located String) : Read CompositionDraft := do
  match key.value with
  | "name" => return { d with name := ← Read.optionalScalar }
  | "domain" => return { d with domain := ← Read.optionalScalar }
  | "label" => return { d with label := ← Read.optionalString }
  | "comment" => return { d with comment := (← Read.optionalString).getD "" }
  | _ => Read.unknownKey .composition key

def CompositionDraft.finish (d : CompositionDraft) (target : Located String) (location : Location) :
    Read CompositionProperty := do
  let name ← Read.require d.name .compositionName location
  return {
    name
    composition := .ofName target
    domain := d.domain.map Reference.ofName
    label := d.label
    comment := d.comment }

/-! ### Aliases of properties -/

/-- What an alias points at: a class, and one property of it or a choice. -/
structure AliasTarget where
  cls : Option (Located String) := none
  property : Option (Located String) := none
  only : List (Located String) := []
  exclude : List (Located String) := []

def AliasTarget.set (t : AliasTarget) (key : Located String) : Read AliasTarget := do
  match key.value with
  | "class" => return { t with cls := ← Read.optionalScalar }
  | "property" => return { t with property := ← Read.optionalScalar }
  | "include" => return { t with only := ← Read.scalarList }
  | "exclude" => return { t with exclude := ← Read.scalarList }
  | _ => Read.unknownKey .aliasTarget key

/-- `true` is the name of the class, `false` nothing at all. -/
def affix : Read (Option Affix) := do
  match ← Read.optionalString with
  | none | some "false" => return none
  | some "true" => return some .className
  | some text => return some (.literal text)

structure PropertyAliasDraft where
  name : Option (Located String) := none
  before : Option Affix := none
  after : Option Affix := none
  label : Option String := none
  comment : Option String := none
  required : Option Bool := none
  defaultValue : Option String := none
  readonly : Bool := false
  asDomain : Option (Located String) := none

def PropertyAliasDraft.set (d : PropertyAliasDraft) (key : Located String) :
    Read PropertyAliasDraft := do
  match key.value with
  | "name" => return { d with name := ← Read.optionalScalar }
  | "prefix" => return { d with before := ← affix }
  | "suffix" => return { d with after := ← affix }
  | "label" => return { d with label := ← Read.optionalString }
  | "comment" => return { d with comment := ← Read.optionalString }
  | "required" => return { d with required := some (← Read.bool) }
  | "defaultValue" => return { d with defaultValue := ← Read.optionalString }
  | "readonly" => return { d with readonly := ← Read.bool }
  | "as" => return { d with asDomain := ← Read.optionalScalar }
  | _ => Read.unknownKey .propertyAlias key

def PropertyAliasDraft.finish (d : PropertyAliasDraft) (t : AliasTarget) (location : Location) :
    Read AliasProperty := do
  let cls ← Read.require t.cls .aliasClass location
  if t.property.isSome && !(t.only.isEmpty && t.exclude.isEmpty) then
    Read.fail .aliasSelection location
  return {
    cls := .ofName cls
    property := t.property.map Reference.ofName
    only := t.only
    exclude := t.exclude
    name := d.name
    before := d.before
    after := d.after
    label := d.label
    comment := d.comment
    required := d.required
    defaultValue := d.defaultValue
    readonly := d.readonly
    asDomain := d.asDomain }

/-! ### Properties -/

/-- A property; the first key tells its kind. -/
def property : Read PropertyDraft := do
  let start ← Read.expect .mappingStart
  let location := start.location
  let first ← Read.scalar
  let kind ←
    match first.value with
    | "association" => do
      let p ← Read.remaining setAssociation (associationTo (← Read.scalar))
      pure (PropertyKind.association p)
    | "composition" => do
      let target ← Read.scalar
      let d ← Read.remaining CompositionDraft.set {}
      pure (PropertyKind.composition (← d.finish target location))
    | "alias" => do
      let target ← Read.mapping AliasTarget.set {}
      let d ← Read.remaining PropertyAliasDraft.set {}
      pure (PropertyKind.propertyAlias (← d.finish target location))
    | _ => do
      let d ← RegularDraft.set {} first
      let d ← Read.remaining RegularDraft.set d
      pure (PropertyKind.regular (← d.finish location))
  return ⟨location, kind⟩

def propertyList : Read (List PropertyDraft) := Read.sequence property

end EntityModel.Loading
