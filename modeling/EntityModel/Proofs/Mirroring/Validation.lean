import EntityModel.Linking.Link
import EntityModel.Proofs.Mirroring.Reports

/-!
# Validating mirrored models

What does not hold together in a class, an association or an endpoint is found in mirrored models
alike. For things declared twice the order of the files says which of them comes first, but not
whether there are any (`duplicates_of_mirrors`).
-/

namespace EntityModel.Validation

open Linking

variable {ρ : Relabelling} {m m' : Model} {rules : NamingRules}

/-! ### Things declared twice -/

theorem repeatedFrom_map {α κ : Type} [BEq κ] {φ : α → α} {key key' : α → κ}
    (hk : ∀ a, key' (φ a) = key a) (as : List α) : ∀ firsts : List (κ × α),
      repeatedFrom key' (firsts.map (Prod.map id φ)) (as.map φ)
        = (repeatedFrom key firsts as).map (Prod.map φ φ) := by
  have hlookup : ∀ (firsts : List (κ × α)) (k : κ),
      (firsts.map (Prod.map id φ)).lookup k = (firsts.lookup k).map φ := by
    intro firsts k
    induction firsts with
    | nil => rfl
    | cons x rest ih =>
      obtain ⟨key, a⟩ := x
      rw [List.map_cons, Prod.map, List.lookup_cons, List.lookup_cons, ih, id]
      split <;> rfl
  induction as with
  | nil => exact fun _ => rfl
  | cons a rest ih =>
    intro firsts
    rw [List.map_cons, repeatedFrom, repeatedFrom, hk, hlookup]
    cases firsts.lookup (key a) with
    | some first => simp only [Option.map_some, ih, List.map_cons, Prod.map]
    | none =>
      have hfirsts : firsts.map (Prod.map id φ) ++ [(key a, φ a)]
          = (firsts ++ [(key a, a)]).map (Prod.map id φ) := by
        rw [List.map_append]
        rfl
      simp only [Option.map_none, hfirsts, ih]

/-- **Nothing is repeated if and only if the keys are all different.** -/
theorem repeated_eq_nil_iff {α κ : Type} [BEq κ] [LawfulBEq κ] {key : α → κ} {as : List α} :
    repeated key as = [] ↔ (as.map key).Nodup := by
  have hfrom : ∀ (as : List α) (firsts : List (κ × α)), repeatedFrom key firsts as = []
      ↔ (∀ a ∈ as, ∀ x ∈ firsts, x.1 ≠ key a) ∧ (as.map key).Nodup := by
    intro as
    induction as with
    | nil => simp [repeatedFrom]
    | cons a rest ih =>
      intro firsts
      rw [repeatedFrom, List.map_cons, List.nodup_cons, List.forall_mem_cons, List.mem_map]
      cases hl : firsts.lookup (key a) with
      | some first =>
        rw [lookup_eq_find?, Option.map_eq_some_iff] at hl
        obtain ⟨x, hx, -⟩ := hl
        have hkey : x.1 = key a := by simpa using List.find?_some hx
        exact iff_of_false (List.cons_ne_nil _ _)
          fun hnot => hnot.1.1 x (List.mem_of_find?_eq_some hx) hkey
      | none =>
        have hnot : ∀ x ∈ firsts, x.1 ≠ key a := by
          simpa [lookup_eq_find?] using hl
        simp only [ih, List.mem_append, List.mem_singleton]
        constructor
        · rintro ⟨hrest, hnodup⟩
          refine ⟨⟨hnot, fun b hb x hx => hrest b hb x (Or.inl hx)⟩, ?_, hnodup⟩
          rintro ⟨b, hb, he⟩
          exact hrest b hb (key a, a) (Or.inr rfl) he.symm
        · rintro ⟨⟨-, hrest⟩, hdiff, hnodup⟩
          refine ⟨fun b hb x hx => ?_, hnodup⟩
          rcases hx with hx | rfl
          · exact hrest b hb x hx
          · exact fun he => hdiff ⟨b, hb, he.symm⟩
  rw [repeated, hfrom]
  simp

/-- If nothing is repeated in a list, nothing is under other labels and in another order. -/
theorem repeated_of_perm {α κ : Type} [BEq κ] [LawfulBEq κ] {φ : α → α} {key : α → κ}
    {as as' : List α} (h : as'.Perm (as.map φ)) (hk : ∀ a, key (φ a) = key a)
    (hnone : repeated key as = []) : repeated key as' = [] := by
  rw [repeated_eq_nil_iff] at hnone ⊢
  rw [(h.map key).nodup_iff, List.map_map, show key ∘ φ = key from funext hk]
  exact hnone

theorem perm_withTrigrams (h : m.Mirrors ρ m') :
    (withTrigrams m').Perm
      ((withTrigrams m).map (Prod.map (Class.relabel ρ) (Located.relabel ρ))) :=
  perm_filterMap h.classes fun c => by
    rw [Class.relabel_trigram, Option.map_map, Option.map_map]
    rfl

/-- **If nothing is declared twice in a model, nothing is in a mirrored one.** -/
theorem duplicates_of_mirrors (h : m.Mirrors ρ m') (hnone : duplicates m = []) :
    duplicates m' = [] := by
  simp only [duplicates, duplicateClasses, duplicateDecorators, duplicateDomains,
    duplicateEndpoints, duplicateTrigrams, List.append_eq_nil_iff, List.map_eq_nil_iff] at hnone ⊢
  obtain ⟨⟨⟨⟨hclasses, hdecorators⟩, hdomains⟩, hendpoints⟩, htrigrams⟩ := hnone
  exact ⟨⟨⟨⟨repeated_of_perm h.classes (fun _ => rfl) hclasses,
    repeated_of_perm h.decorators (fun _ => rfl) hdecorators⟩,
    repeated_of_perm h.domains (fun _ => rfl) hdomains⟩,
    repeated_of_perm h.endpoints (fun _ => rfl) hendpoints⟩,
    repeated_of_perm (perm_withTrigrams h) (fun _ => rfl) htrigrams⟩

/-! ### Classes -/

theorem compositeKey_relabel (h : m.Mirrors ρ m') (c : Class) :
    compositeKey m' rules (c.relabel ρ) = (compositeKey m rules c).map (Diagnostic.relabel ρ) := by
  unfold compositeKey
  rw [Class.relabel_id, h.primaryKey]
  split
  · rfl
  · match m.primaryKey c.id with
    | [] => rfl
    | [_] => rfl
    | _ :: _ :: _ => rfl

theorem namedProperties_relabel (h : m.Mirrors ρ m') (c : Class) :
    namedProperties m' rules (c.relabel ρ)
      = (namedProperties m rules c).map (Prod.map (Property.relabel ρ) id) := by
  unfold namedProperties
  rw [Class.relabel_id, h.classProperties, List.filterMap_map, List.map_filterMap]
  refine List.filterMap_congr fun p _ => ?_
  simp only [Function.comp, Property.relabel_id, h.propertyName?, Option.map_map]
  rfl

theorem duplicateProperties_relabel (h : m.Mirrors ρ m') (c : Class) :
    duplicateProperties m' rules (c.relabel ρ)
      = (duplicateProperties m rules c).map (Diagnostic.relabel ρ) := by
  have hrepeated : repeated Prod.snd
        ((namedProperties m rules c).map (Prod.map (Property.relabel ρ) id))
      = (repeated Prod.snd (namedProperties m rules c)).map
        (Prod.map (Prod.map (Property.relabel ρ) id)
          (Prod.map (Property.relabel ρ) id)) :=
    repeatedFrom_map (fun _ => rfl) _ []
  unfold duplicateProperties
  rw [namedProperties_relabel h, hrepeated, List.map_map, List.map_map]
  refine List.map_congr_left fun ⟨⟨p, name⟩, first⟩ _ => ?_
  have hown : ((p.relabel ρ).owner.cls? == some (c.id.relabel ρ))
      = (p.owner.cls? == some c.id) := by
    rw [Property.owner, Property.relabel_id, PropertyId.relabel_owner,
      Model.Mirrors.owner_cls?_relabel, ← Option.map_some, Bool.eq_iff_iff, beq_iff_eq, beq_iff_eq,
      (Option.map_injective h.renames.id_injective).eq_iff]
    rfl
  simp only [Function.comp, Prod.map, Class.relabel_id, hown, Property.relabel_location,
    Class.relabel_name, Located.relabel_value, Located.relabel_location, id]
  split <;> rfl

theorem baseCount_relabel (h : m.Mirrors ρ m') (c : Class) (language : String) :
    baseCount m' (c.relabel ρ) language = baseCount m c language := by
  have hused : (c.decorators.map (DecoratorUsage.relabel ρ)).filterMap
      (fun usage => usage.decorator.target.bind m'.decorator?)
      = (c.decorators.filterMap fun usage => usage.decorator.target.bind m.decorator?).map
          (Decorator.relabel ρ) := by
    rw [List.filterMap_map, List.map_filterMap]
    refine List.filterMap_congr fun usage _ => ?_
    simp only [Function.comp, DecoratorUsage.relabel_decorator, h.renames.target]
    cases usage.decorator.target with
    | none => rfl
    | some id => exact h.decorator? id
  unfold baseCount
  simp only [Class.relabel_decorators, hused, List.countP_map, Class.relabel_parent,
    Option.isSome_map]
  rfl

theorem severalBases_relabel (h : m.Mirrors ρ m') (c : Class) :
    severalBases m' (c.relabel ρ) = (severalBases m c).map (Diagnostic.relabel ρ) := by
  unfold severalBases
  simp only [baseCount_relabel h]
  cases decoratorLanguages.find? fun language => baseCount m c language > 1 <;> rfl

theorem isRequiredInValues_relabel (h : m.Mirrors ρ m') (p : Property) :
    isRequiredInValues m' (p.relabel ρ) = isRequiredInValues m p := by
  obtain ⟨id, l, k⟩ := p
  cases k with
  | regular r =>
    have hdomain : (r.domain.relabel ρ).target.bind m'.domain?
        = (r.domain.target.bind m.domain?).map (Domain.relabel ρ) := by
      rw [h.renames.target]
      cases r.domain.target with
      | none => rfl
      | some d => exact h.domain? d
    simp only [isRequiredInValues, Property.relabel, PropertyKind.relabel,
      RegularProperty.relabel_domain, hdomain, Option.any_map]
    rfl
  | _ => rfl

theorem get?_relabel (hρ : ρ.Renames) (v : ReferenceValue) (id : PropertyId) :
    (v.relabel ρ).get? (id.relabel ρ) = v.get? id := by
  have htest : (fun f : ValueField => f.property.target == some (id.relabel ρ)) ∘
        ValueField.relabel ρ
      = fun f => f.property.target == some id := by
    funext f
    rw [Function.comp, ValueField.relabel_property, hρ.target, Bool.eq_iff_iff,
      beq_iff_eq, beq_iff_eq]
    exact (Option.map_injective hρ.propertyId_injective).eq_iff (b := some id)
  unfold ReferenceValue.get?
  rw [ReferenceValue.relabel_fields, List.find?_map, htest, Option.map_map]
  rfl

theorem missingValues_relabel (h : m.Mirrors ρ m') (c : Class) :
    missingValues m' rules (c.relabel ρ)
      = (missingValues m rules c).map (Diagnostic.relabel ρ) := by
  have hrequired : (m'.classProperties (c.id.relabel ρ)).filter (isRequiredInValues m')
      = ((m.classProperties c.id).filter (isRequiredInValues m)).map (Property.relabel ρ) := by
    rw [h.classProperties, List.filter_map]
    congr 2
    funext p
    exact isRequiredInValues_relabel h p
  unfold missingValues
  simp only [Class.relabel_id, hrequired, Class.relabel_values, List.flatMap_map, List.map_flatMap]
  refine List.flatMap_congr fun v _ => ?_
  have htest : (fun p : Property => ((v.relabel ρ).get? p.id).isNone) ∘ Property.relabel ρ
      = fun p => (v.get? p.id).isNone := by
    funext p
    simp only [Function.comp, Property.relabel_id, get?_relabel h.renames]
  rw [List.filter_map, htest, List.map_map, List.map_map]
  refine List.map_congr_left fun p _ => ?_
  simp only [Function.comp, Property.relabel_id, h.propertyName]
  rfl

theorem classProblems_relabel (h : m.Mirrors ρ m') (c : Class) :
    classProblems m' rules (c.relabel ρ)
      = (classProblems m rules c).map (Diagnostic.relabel ρ) := by
  simp only [classProblems, compositeKey_relabel h, duplicateProperties_relabel h,
    severalBases_relabel h, missingValues_relabel h, List.map_append]

/-! ### Associations and endpoints -/

theorem associationProblem_relabel (h : m.Mirrors ρ m') (p : Property) :
    associationProblem m' (p.relabel ρ) = (associationProblem m p).map (Diagnostic.relabel ρ) := by
  obtain ⟨id, l, k⟩ := p
  cases k with
  | association a =>
    simp only [associationProblem, Property.association?, Property.relabel,
      PropertyKind.relabel, bind, Option.bind_some, AssociationProperty.relabel_association,
      h.renames.target, AssociationProperty.relabel_property, Option.isSome_map]
    cases a.association.target with
    | none => rfl
    | some C =>
      simp only [Option.map_some, Option.bind_some]
      rw [show Relabelled.relabel ρ C = C.relabel ρ from rfl, h.primaryKey, List.length_map, h.cls?,
        Option.map_map]
      split <;> rfl
  | _ => rfl

theorem isQueryParam_relabel (h : m.Mirrors ρ m') (e : Endpoint) (p : Property) :
    isQueryParam m' rules (e.relabel ρ) (p.relabel ρ) = isQueryParam m rules e p := by
  simp only [isQueryParam, isRouteParam, Endpoint.relabel_route, Property.relabel_id,
    h.propertyName, h.isBodyParam]

theorem parameterProblems_relabel (h : m.Mirrors ρ m') (e : Endpoint) :
    parameterProblems m' rules (e.relabel ρ)
      = (parameterProblems m rules e).map (Diagnostic.relabel ρ) := by
  have htest : (fun p => !isQueryParam m' rules (e.relabel ρ) p) ∘ Property.relabel ρ
      = fun p => !isQueryParam m rules e p := by
    funext p
    simp only [Function.comp, isQueryParam_relabel h]
  unfold parameterProblems
  simp only []
  rw [Endpoint.relabel_params, List.dropWhile_map, htest, List.filter_map, htest, List.map_map,
    List.map_map]
  refine List.map_congr_left fun p _ => ?_
  simp only [Function.comp, Property.relabel_id, h.propertyName]
  rfl

/-- **If validation finds nothing in a model, it finds nothing in a mirrored one.** -/
theorem problems_of_mirrors (h : m.Mirrors ρ m') (hnone : problems m rules = []) :
    problems m' rules = [] := by
  simp only [problems, List.append_eq_nil_iff] at hnone ⊢
  obtain ⟨⟨⟨hduplicates, hclasses⟩, hassociations⟩, hparameters⟩ := hnone
  exact ⟨⟨⟨duplicates_of_mirrors h hduplicates,
    eq_nil_of_perm (perm_flatMap h.classes (classProblems_relabel h)) hclasses⟩,
    eq_nil_of_perm (perm_filterMap h.properties (associationProblem_relabel h)) hassociations⟩,
    eq_nil_of_perm (perm_flatMap h.endpoints (parameterProblems_relabel h)) hparameters⟩

end EntityModel.Validation
