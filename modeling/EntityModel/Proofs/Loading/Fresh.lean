import EntityModel.Linking.References
import EntityModel.Proofs.Loading.Numbering
import EntityModel.Proofs.Naming.Stability

/-!
# Drafts

In a draft nothing points anywhere, and every place lies in its own file.  `ModelFile.Fresh` says
this of the file as a whole, as its being its own relabelling; here it is read off for the parts
that linking starts from.  The references of a relabelled file are those of the file, relabelled; so
in a draft all of them are open and stand in the file (`ModelFile.Fresh.references`).
-/

namespace EntityModel

theorem fixed_of_map_eq {α : Type} {g : α → α} {l : List α} (h : l.map g = l) :
    ∀ x ∈ l, g x = x := by
  induction l with
  | nil => simp
  | cons x l ih =>
    rw [List.map_cons] at h
    obtain ⟨hx, hl⟩ := List.cons.inj h
    exact List.forall_mem_cons.mpr ⟨hx, ih hl⟩

theorem fixed_of_omap_eq {α : Type} {g : α → α} {o : Option α} (h : o.map g = o) :
    ∀ x ∈ o, g x = x := by
  rintro x rfl
  exact Option.some.inj h

theorem fixed_of_lists_eq {α : Type} {g : α → α} {o : Option (List α)} (h : o.map (·.map g) = o) :
    ∀ x ∈ o.getD [], g x = x := by
  cases o with
  | none => simp
  | some l => exact fixed_of_map_eq (Option.some.inj h)

open ModelFile (only)

/-- A reference that points nowhere and was read from the file. -/
theorem Reference.of_fixed {α : Type} [Relabelled α] {id : FileId} {r : Reference α}
    (h : r.relabel (only id) = r) : r.target = none ∧ r.location.file = id := by
  refine ⟨(congrArg Reference.target h).symm, ?_⟩
  exact (congrArg (fun r => r.location.file) h).symm

theorem Property.location_of_fixed {id : FileId} {p : Property} (h : p.relabel (only id) = p) :
    p.location.file = id := (congrArg (fun p => p.location.file) h).symm

/-- The reference to a property, and the class that it is looked up on. -/
theorem Property.lookup?_of_fixed {id : FileId} {p : Property} (h : p.relabel (only id) = p)
    {cls : ClassReference} {r : PropertyReference} (hl : p.kind.lookup? = some (cls, r)) :
    cls.relabel (only id) = cls ∧ r.relabel (only id) = r := by
  have hkind := congrArg Property.kind h
  cases hk : p.kind with
  | association a =>
    rw [Property.relabel, hk, PropertyKind.relabel] at hkind
    have ha := PropertyKind.association.inj hkind
    simp only [hk, PropertyKind.lookup?, Option.map_eq_some_iff, Prod.mk.injEq] at hl
    obtain ⟨r, hr, rfl, rfl⟩ := hl
    exact ⟨congrArg AssociationProperty.association ha,
      fixed_of_omap_eq (congrArg AssociationProperty.property ha) _ hr⟩
  | propertyAlias a =>
    rw [Property.relabel, hk, PropertyKind.relabel] at hkind
    have ha := PropertyKind.propertyAlias.inj hkind
    simp only [hk, PropertyKind.lookup?, Option.map_eq_some_iff, Prod.mk.injEq] at hl
    obtain ⟨r, hr, rfl, rfl⟩ := hl
    exact ⟨congrArg AliasProperty.cls ha,
      fixed_of_omap_eq (congrArg AliasProperty.property ha) _ hr⟩
  | _ => simp [hk, PropertyKind.lookup?] at hl

namespace ModelFile.Fresh

variable {f : ModelFile}

theorem uses (h : f.Fresh) : ∀ r ∈ f.uses, r.relabel (only f.id) = r :=
  fixed_of_map_eq (congrArg ModelFile.uses h)

theorem domains (h : f.Fresh) : ∀ d ∈ f.domains, d.relabel (only f.id) = d :=
  fixed_of_map_eq (congrArg ModelFile.domains h)

theorem decorators (h : f.Fresh) : ∀ d ∈ f.decorators, d.relabel (only f.id) = d :=
  fixed_of_map_eq (congrArg ModelFile.decorators h)

theorem classes (h : f.Fresh) : ∀ c ∈ f.classes, c.relabel (only f.id) = c :=
  fixed_of_map_eq (congrArg ModelFile.classes h)

theorem endpoints (h : f.Fresh) : ∀ e ∈ f.endpoints, e.relabel (only f.id) = e :=
  fixed_of_map_eq (congrArg ModelFile.endpoints h)

theorem aliases (h : f.Fresh) : ∀ a ∈ f.aliases, a.relabel (only f.id) = a :=
  fixed_of_map_eq (congrArg ModelFile.aliases h)

theorem properties (h : f.Fresh) : ∀ p ∈ f.properties, p.relabel (only f.id) = p := by
  intro p hp
  simp only [ModelFile.properties, List.mem_append, List.mem_flatMap] at hp
  rcases hp with (⟨c, hc, hp⟩ | ⟨d, hd, hp⟩) | ⟨e, he, hp⟩
  · exact fixed_of_map_eq (congrArg Class.properties (h.classes c hc)) p hp
  · exact fixed_of_map_eq (congrArg Decorator.properties (h.decorators d hd)) p hp
  · rcases List.mem_append.mp hp with hp | hp
    · exact fixed_of_map_eq (congrArg Endpoint.params (h.endpoints e he)) p hp
    · exact fixed_of_omap_eq (congrArg Endpoint.returns (h.endpoints e he)) p
        (Option.mem_toList.mp hp)

end ModelFile.Fresh

/-! ### References of relabelled files -/

namespace Linking

variable (ρ : Relabelling)

def EntityReference.relabel : EntityReference → EntityReference
  | .cls r => .cls (r.relabel ρ)
  | .decorator r => .decorator (r.relabel ρ)
  | .domain r => .domain (r.relabel ρ)

theorem propertyReferences_relabel (p : Property) :
    propertyReferences (p.relabel ρ) = (propertyReferences p).map (EntityReference.relabel ρ) := by
  obtain ⟨id, l, k⟩ := p
  cases k with
  | composition c => cases hd : c.domain <;>
      simp [propertyReferences, Property.relabel, PropertyKind.relabel,
        CompositionProperty.relabel, hd, EntityReference.relabel]
  | _ => rfl

theorem classReferences_relabel (c : Class) :
    classReferences (c.relabel ρ) = (classReferences c).map (EntityReference.relabel ρ) := by
  have hp : (fun p : Property => propertyReferences (p.relabel ρ))
      = fun p => (propertyReferences p).map (EntityReference.relabel ρ) :=
    funext (propertyReferences_relabel ρ)
  cases hc : c.parent <;>
    simp [classReferences, Class.relabel, hc, List.flatMap_map, List.map_flatMap, hp,
      EntityReference.relabel, Function.comp_def, DecoratorUsage.relabel]

/-- **Relabelling a file relabels its references.** -/
theorem fileReferences_relabel (f : ModelFile) :
    fileReferences (f.relabel ρ) = (fileReferences f).map (EntityReference.relabel ρ) := by
  have hp : (fun p : Property => propertyReferences (p.relabel ρ))
      = fun p => (propertyReferences p).map (EntityReference.relabel ρ) :=
    funext (propertyReferences_relabel ρ)
  have hc : (fun c : Class => classReferences (c.relabel ρ))
      = fun c => (classReferences c).map (EntityReference.relabel ρ) :=
    funext (classReferences_relabel ρ)
  have he : ∀ e : Endpoint, (e.relabel ρ).properties = e.properties.map (Property.relabel ρ) := by
    intro e
    cases hr : e.returns <;> simp [Endpoint.properties, Endpoint.relabel, hr]
  simp [fileReferences, ModelFile.relabel, List.flatMap_map, List.map_flatMap, hp, hc, he,
    Domain.relabel, Decorator.relabel, EntityReference.relabel, Function.comp_def]

end Linking

open Linking ModelFile

theorem ModelFile.Fresh.references {f : ModelFile} (h : f.Fresh) :
    ∀ x ∈ fileReferences f, EntityReference.relabel (only f.id) x = x :=
  fixed_of_map_eq ((fileReferences_relabel (only f.id) f).symm.trans (congrArg fileReferences h))

end EntityModel
