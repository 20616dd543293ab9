import EntityModel.Naming.Column
import EntityModel.Naming.Type
import EntityModel.Proofs.Mirroring.Models

/-!
# Names in mirrored models

Names are derived by following what properties point to, and no file id goes into them: a property
has the same name in a mirrored model (`Mirrors.propertyName?`), and the same column.  The domain
that it has is the relabelled one (`Mirrors.baseDomain`).
-/

namespace EntityModel.Model.Mirrors

open Naming

variable {ρ : Relabelling} {m m' : Model} {rules : NamingRules}

theorem declaredName?_relabel (p : Property) :
    (p.relabel ρ).declaredName? = p.declaredName?.map (Located.relabel ρ) := by
  cases hk : p.kind <;> simp [Property.declaredName?, PropertyKind.declaredName?, hk,
    PropertyKind.relabel]

/-! ### Names -/

theorem target_className (h : m.Mirrors ρ m') (r : ClassReference) :
    ((r.relabel ρ).target.bind m'.cls?).map (·.name.value)
      = (r.target.bind m.cls?).map (·.name.value) := by
  rw [h.target_cls?, Option.map_map]
  rfl

theorem associationName_relabel (a : AssociationProperty) (target key : String) :
    associationName rules (a.relabel ρ) target key = associationName rules a target key := by
  simp only [associationName, AssociationProperty.relabel_role,
    AssociationProperty.relabel_cardinality]

theorem nameWithin (h : m.Mirrors ρ m') (fuel : Nat) (id : PropertyId) :
    m'.nameWithin rules fuel (id.relabel ρ) = m.nameWithin rules fuel id := by
  induction fuel generalizing id with
  | zero => rfl
  | succ fuel ih =>
    simp only [Model.nameWithin, bind, h.property?]
    cases m.property? id with
    | none => simp only [Option.map_none, Option.bind_none]
    | some p =>
      simp only [Option.map_some, Option.bind_some, declaredName?_relabel]
      cases p.declaredName? with
      | some name => simp only [Option.map_some, Located.relabel_value]
      | none =>
        obtain ⟨pid, l, k⟩ := p
        cases k with
        | regular r | composition r =>
          simp only [Option.map_none, Property.relabel, PropertyKind.relabel]
        | association a =>
          simp only [Option.map_none, Property.relabel, PropertyKind.relabel,
            AssociationProperty.relabel_association, h.renames.target, h.keyOf, Option.bind_map]
          cases a.association.target with
          | none => simp only [Option.bind_none]
          | some c =>
            simp only [Option.bind_some, Function.comp]
            rw [show Relabelled.relabel ρ c = c.relabel ρ from rfl, h.cls?]
            cases m.cls? c with
            | none => simp only [Option.map_none, Option.bind_none]
            | some target =>
              simp only [Option.map_some, Option.bind_some]
              congr 1
              funext key
              show (m'.nameWithin rules fuel (key.relabel ρ)).bind _ = _
              simp only [ih, associationName_relabel, Class.relabel_name, Located.relabel_value]
        | propertyAlias a =>
          simp only [Option.map_none, Property.relabel, PropertyKind.relabel,
            AliasProperty.relabel_property, AliasProperty.relabel_cls, h.target_className]
          cases a.property with
          | none => simp only [Option.map_none, Option.bind_none]
          | some r =>
            simp only [Option.map_some, Option.bind_some, h.renames.target]
            cases r.target with
            | none => simp only [Option.map_none, Option.bind_none]
            | some t =>
              simp only [Option.map_some, Option.bind_some]
              rw [show Relabelled.relabel ρ t = t.relabel ρ from rfl, ih]
              simp only [AliasProperty.relabel_before, AliasProperty.relabel_after]

/-- **A property goes by the same name in a mirrored model.** -/
theorem propertyName? (h : m.Mirrors ρ m') (id : PropertyId) :
    m'.propertyName? rules (id.relabel ρ) = m.propertyName? rules id := h.nameWithin _ id

theorem propertyName (h : m.Mirrors ρ m') (id : PropertyId) :
    m'.propertyName rules (id.relabel ρ) = m.propertyName rules id := by
  unfold Model.propertyName
  rw [h.propertyName?]

theorem findProperty (h : m.Mirrors ρ m') (C : ClassId) (name : String) :
    m'.findProperty rules (C.relabel ρ) name
      = (m.findProperty rules C name).map (PropertyId.relabel ρ) := by
  have htest : (fun p : Property => m'.propertyName? rules p.id == some name) ∘ Property.relabel ρ
      = fun p => m.propertyName? rules p.id == some name := by
    funext p
    simp only [Function.comp, Property.relabel_id, h.propertyName?]
  unfold Model.findProperty
  rw [h.classProperties, List.find?_map, Option.map_map, Option.map_map, htest]
  rfl

theorem javaName (h : m.Mirrors ρ m') (id : PropertyId) :
    m'.javaName rules (id.relabel ρ) = m.javaName rules id := by
  unfold Model.javaName
  rw [h.propertyName]

theorem tsName (h : m.Mirrors ρ m') (id : PropertyId) :
    m'.tsName rules (id.relabel ρ) = m.tsName rules id := by
  obtain ⟨o, i⟩ := id
  unfold Model.tsName
  rw [h.propertyName]
  cases o with
  | params e | returns e =>
    simp only [PropertyId.relabel, PropertyOwner.relabel, h.endpoint?, Option.any_map,
      Endpoint.relabel_preservePropertyCasing]
  | _ => rfl

/-! ### Columns -/

theorem withoutOwner (h : m.Mirrors ρ m') (id : PropertyId) (name : String) :
    m'.withoutOwner (id.relabel ρ) name = m.withoutOwner id name := by
  obtain ⟨o, i⟩ := id
  cases o with
  | cls c =>
    simp only [Model.withoutOwner, bind, PropertyId.relabel, PropertyOwner.relabel,
      PropertyOwner.cls?, Option.bind_some, h.parent?]
    cases m.parent? c with
    | none => rfl
    | some parent =>
      simp only [Option.map_some, Option.bind_some, List.filterMap_cons, h.cls?, List.filterMap_nil]
      cases m.cls? c <;> cases m.cls? parent <;> rfl
  | _ => rfl

theorem withTrigram (h : m.Mirrors ρ m') (host : Option ClassId) (name : String) :
    m'.withTrigram (host.map (Id.relabel ρ)) name = m.withTrigram host name := by
  unfold Model.withTrigram
  cases host with
  | none => rfl
  | some c =>
    simp only [Option.map_some, Option.bind_some, h.cls?]
    cases m.cls? c with
    | none => rfl
    | some c =>
      cases ht : c.trigram <;> simp [ht]

theorem owner_cls?_relabel (o : PropertyOwner) :
    (o.relabel ρ).cls? = o.cls?.map (Id.relabel ρ) := by
  cases o <;> rfl

theorem columnWithin (h : m.Mirrors ρ m') (fuel : Nat) (id : PropertyId) (host : Option ClassId) :
    m'.columnWithin rules fuel (id.relabel ρ) (host.map (Id.relabel ρ))
      = m.columnWithin rules fuel id host := by
  induction fuel generalizing id host with
  | zero => simp only [Model.columnWithin, h.propertyName]
  | succ fuel ih =>
    have hhost : (host.map (Id.relabel ρ)).or (id.relabel ρ).owner.cls?
        = (host.or id.owner.cls?).map (Id.relabel ρ) := by
      rw [PropertyId.relabel_owner, owner_cls?_relabel]
      cases host <;> rfl
    simp only [Model.columnWithin, h.property?, h.propertyName, hhost]
    cases m.property? id with
    | none => rfl
    | some p =>
      obtain ⟨pid, l, k⟩ := p
      cases k with
      | composition c => rfl
      | regular r =>
        simp only [Option.map_some, Property.relabel, PropertyKind.relabel, RegularProperty.relabel,
          Located.relabel, h.withoutOwner, h.withTrigram]
      | association a =>
        simp only [Option.map_some, Property.relabel, PropertyKind.relabel, h.keyOf,
          AssociationProperty.relabel_association, h.renames.target]
        cases a.association.target with
        | none => rfl
        | some target =>
          cases m.keyOf a with
          | none => rfl
          | some key =>
            have hkey := ih key (some target)
            simp only [Option.map_some, h.propertyName] at hkey ⊢
            rw [show Relabelled.relabel ρ target = target.relabel ρ from rfl, hkey]
            rfl
      | propertyAlias a =>
        simp only [Option.map_some, Property.relabel, PropertyKind.relabel,
          AliasProperty.relabel_property, AliasProperty.relabel_name, Option.isSome_map,
          AliasProperty.relabel_before, AliasProperty.relabel_after, h.withTrigram]
        cases a.property with
        | none => rfl
        | some r =>
          simp only [Option.map_some, Option.bind_some, h.renames.target]
          cases r.target with
          | none => rfl
          | some t =>
            have ht := ih t none
            simp only [Option.map_some, Option.map_none] at ht ⊢
            rw [show Relabelled.relabel ρ t = t.relabel ρ from rfl, ht]

theorem columnName (h : m.Mirrors ρ m') (id : PropertyId) (host : Option ClassId) :
    m'.columnName rules (id.relabel ρ) (host.map (Id.relabel ρ)) = m.columnName rules id host :=
  h.columnWithin _ id host

/-! ### Domains -/

theorem nextOnChain (h : m.Mirrors ρ m') (p : Property) :
    m'.nextOnChain (p.relabel ρ) = (m.nextOnChain p).map (PropertyId.relabel ρ) := by
  obtain ⟨pid, l, k⟩ := p
  cases k with
  | association a => exact h.keyOf a
  | propertyAlias a =>
    simp only [Model.nextOnChain, Property.relabel, PropertyKind.relabel,
      AliasProperty.relabel_property]
    cases a.property with
    | none => rfl
    | some r => exact h.renames.target r
  | _ => rfl

theorem baseFrom (h : m.Mirrors ρ m') {effective effective' : PropertyId → Option DomainId}
    (he : ∀ id, effective' (id.relabel ρ) = (effective id).map (Id.relabel ρ)) (p : Property) :
    m'.baseFrom effective' (p.relabel ρ) = (m.baseFrom effective p).map (Id.relabel ρ) := by
  have hnext : (m'.nextOnChain (p.relabel ρ)).bind effective'
      = ((m.nextOnChain p).bind effective).map (Id.relabel ρ) := by
    rw [h.nextOnChain]
    cases m.nextOnChain p with
    | none => rfl
    | some id => exact he id
  obtain ⟨pid, l, k⟩ := p
  cases k with
  | regular r => exact h.renames.target r.domain
  | composition c =>
    simp only [Model.baseFrom, Property.relabel, PropertyKind.relabel,
      CompositionProperty.relabel_domain]
    cases c.domain with
    | none => rfl
    | some r => exact h.renames.target r
  | _ => exact hnext

theorem asName_relabel (p : Property) :
    asName (p.relabel ρ) = (asName p).map (Located.relabel ρ) := by
  cases hk : p.kind <;> simp [asName, hk, PropertyKind.relabel]

theorem lookup_asDomains_relabel (asDomains : OrderedMap DomainReference) (word : String) :
    (asDomains.map fun (w, r) => (w, r.relabel ρ)).lookup word
      = (asDomains.lookup word).map (Reference.relabel ρ) := by
  induction asDomains with
  | nil => rfl
  | cons head rest ih =>
    obtain ⟨w, r⟩ := head
    rw [List.map_cons, List.lookup_cons, List.lookup_cons, ih]
    split <;> rfl

theorem asDomain_target (h : m.Mirrors ρ m') (d : Domain) (word : String) :
    ((d.relabel ρ).asDomains.lookup word).bind Reference.target
      = ((d.asDomains.lookup word).bind Reference.target).map (Id.relabel ρ) := by
  rw [Domain.relabel_asDomains, lookup_asDomains_relabel]
  cases d.asDomains.lookup word with
  | none => rfl
  | some r => exact h.renames.target r

theorem applyAs (h : m.Mirrors ρ m') (p : Property) (base : DomainId) :
    m'.applyAs (p.relabel ρ) (base.relabel ρ) = (m.applyAs p base).map (Id.relabel ρ) := by
  unfold Model.applyAs
  rw [asName_relabel]
  cases asName p with
  | none => rfl
  | some word =>
    simp only [Option.map_some, bind, h.domain?]
    cases m.domain? base with
    | none => rfl
    | some d => exact h.asDomain_target d word.value

theorem effectiveWithin (h : m.Mirrors ρ m') (fuel : Nat) (id : PropertyId) :
    m'.effectiveWithin fuel (id.relabel ρ) = (m.effectiveWithin fuel id).map (Id.relabel ρ) := by
  induction fuel generalizing id with
  | zero => rfl
  | succ fuel ih =>
    simp only [Model.effectiveWithin, bind, h.property?]
    cases m.property? id with
    | none => rfl
    | some p =>
      simp only [Option.map_some, Option.bind_some, h.baseFrom ih]
      cases m.baseFrom (m.effectiveWithin fuel) p with
      | none => rfl
      | some base => exact h.applyAs p base

theorem baseDomain (h : m.Mirrors ρ m') (id : PropertyId) :
    m'.baseDomain (id.relabel ρ) = (m.baseDomain id).map (Id.relabel ρ) := by
  unfold Model.baseDomain
  rw [h.property?]
  cases m.property? id with
  | none => rfl
  | some p => exact h.baseFrom (h.effectiveWithin chainLimit) p

theorem effectiveDomain (h : m.Mirrors ρ m') (id : PropertyId) :
    m'.effectiveDomain (id.relabel ρ) = (m.effectiveDomain id).map (Id.relabel ρ) :=
  h.effectiveWithin _ id

theorem isBodyParam (h : m.Mirrors ρ m') (id : PropertyId) :
    m'.isBodyParam (id.relabel ρ) = m.isBodyParam id := by
  unfold Model.isBodyParam
  rw [h.property?, h.effectiveDomain]
  cases m.property? id with
  | none => rfl
  | some p =>
    obtain ⟨pid, l, k⟩ := p
    have hd : ((m.effectiveDomain id).map (Id.relabel ρ)).bind m'.domain?
        = ((m.effectiveDomain id).bind m.domain?).map (Domain.relabel ρ) := by
      cases m.effectiveDomain id with
      | none => rfl
      | some d => exact h.domain? d
    cases k with
    | composition c => rfl
    | _ =>
      simp only [Option.map_some, Property.relabel, PropertyKind.relabel, hd]
      cases (m.effectiveDomain id).bind m.domain? <;> rfl

end EntityModel.Model.Mirrors
