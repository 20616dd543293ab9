import EntityModel.Proofs.Linking.Names
import EntityModel.Proofs.Loading.Fresh
import EntityModel.Proofs.Mirroring.Models

/-!
# Mirrored models linked by name

Linking by name looks names up in files, and what it finds in mirrored models is mirrored.  The only
look-up that depends on the order of the files is the one for domains, where the first of a name is
meant: as long as no two domains have the same name, linking mirrored models by name gives mirrored
models (`Mirrors.linkNames`).
-/

namespace EntityModel

namespace Model

def DomainsApart (m : Model) : Prop := (m.domains.map (·.name.value)).Nodup

end Model

namespace Linking

variable {ρ : Relabelling} {m m' : Model}

theorem text_relabel {α : Type} [Relabelled α] (r : Reference α) :
    (r.relabel ρ).text = r.text := rfl

theorem resolve_relabel (hρ : ρ.Renames) {α : Type} [Relabelled α] (r : Reference α) (t : α) :
    (r.relabel ρ).resolve (Relabelled.relabel ρ t) = (r.resolve t).relabel ρ := by
  simp only [Reference.resolve, Reference.relabel, hρ.keep, if_true, Option.map_some]

theorem resolveBy_relabel (hρ : ρ.Renames) {α : Type} [Relabelled α]
    {find find' : String → Option α}
    (hf : ∀ name, find' name = (find name).map (Relabelled.relabel ρ)) (r : Reference α) :
    resolveBy find' (r.relabel ρ) = (resolveBy find r).relabel ρ := by
  unfold resolveBy
  rw [text_relabel, hf]
  cases find r.text with
  | none => rfl
  | some t => exact resolve_relabel hρ r t

/-! ### Uses -/

theorem resolveUsesFrom_relabel (h : m.Mirrors ρ m') (seen : List String)
    (uses : List FileReference) :
    resolveUsesFrom m' seen (uses.map (Reference.relabel ρ))
      = (resolveUsesFrom m seen uses).map (Reference.relabel ρ) := by
  induction uses generalizing seen with
  | nil => rfl
  | cons use rest ih =>
    simp only [List.map_cons, resolveUsesFrom, text_relabel, ih, List.cons.injEq,
      and_true, h.fileNamed?]
    by_cases hseen : seen.contains use.text = true
    · rw [if_pos hseen, if_pos hseen]
    · rw [if_neg hseen, if_neg hseen]
      cases m.fileNamed? use.text with
      | none => rfl
      | some f => exact resolve_relabel h.renames use f.id

theorem mirrors_resolveUses (h : m.Mirrors ρ m') : (resolveUses m).Mirrors ρ (resolveUses m') := by
  refine h.mapFiles (fun _ => rfl) (fun _ => rfl) fun f _ => ?_
  simp only [ModelFile.relabel, resolveUsesFrom_relabel h]

/-! ### Aliases of files -/

theorem findClass_relabel (f : ModelFile) (name : String) :
    findClass (f.relabel ρ) name = (findClass f name).map (Id.relabel ρ) := by
  simp only [findClass, ModelFile.relabel_classes, List.find?_map, Option.map_map]
  rfl

theorem findEndpoint_relabel (f : ModelFile) (name : String) :
    findEndpoint (f.relabel ρ) name = (findEndpoint f name).map (Id.relabel ρ) := by
  simp only [findEndpoint, ModelFile.relabel_endpoints, List.find?_map, Option.map_map]
  rfl

theorem resolveAlias_relabel (h : m.Mirrors ρ m') (a : Alias) :
    resolveAlias m' (a.relabel ρ) = (resolveAlias m a).relabel ρ := by
  unfold resolveAlias
  rw [Alias.relabel_file, text_relabel, h.fileNamed?]
  cases m.fileNamed? a.file.text with
  | none => rfl
  | some f =>
    have hc := fun r => resolveBy_relabel h.renames (findClass_relabel (ρ := ρ) f) r
    have he := fun r => resolveBy_relabel h.renames (findEndpoint_relabel (ρ := ρ) f) r
    have hfile : (a.file.relabel ρ).resolve (ρ.file f.id) = (a.file.resolve f.id).relabel ρ :=
      resolve_relabel h.renames a.file f.id
    simp only [Option.map_some, Alias.relabel, ModelFile.relabel_id, Option.map_map,
      Alias.mk.injEq, hfile, true_and, and_true]
    constructor
    · congr 1
      funext rs
      simp only [Function.comp, List.map_map]
      exact List.map_congr_left fun r _ => hc r
    · congr 1
      funext rs
      simp only [Function.comp, List.map_map]
      exact List.map_congr_left fun r _ => he r

theorem targets_relabel (hρ : ρ.Renames) {α : Type} [Relabelled α]
    (rs : Option (List (Reference α)))
    (entity : α → AliasedEntity)
    (he : ∀ a, entity (Relabelled.relabel ρ a) = (entity a).relabel ρ) :
    ((rs.map fun rs => rs.map (Reference.relabel ρ)).getD []).filterMap
      (fun r => r.target.map entity)
      = ((rs.getD []).filterMap fun r => r.target.map entity).map (AliasedEntity.relabel ρ) := by
  cases rs with
  | none => rfl
  | some rs =>
    simp only [Option.map_some, Option.getD_some, List.filterMap_map, List.map_filterMap]
    congr 1
    funext r
    simp only [Function.comp, hρ.target, Option.map_map]
    congr 1
    funext a
    exact he a

theorem aliasedEntities_relabel (h : m.Mirrors ρ m') (a : Alias) :
    aliasedEntities m' (a.relabel ρ) = (aliasedEntities m a).map (AliasedEntity.relabel ρ) := by
  have hwild : (a.relabel ρ).isWildcard = a.isWildcard := by
    simp [Alias.isWildcard]
  unfold aliasedEntities
  rw [Alias.relabel_file, h.target_file?]
  cases a.file.target.bind m.file? with
  | none => rfl
  | some f =>
    simp only [Option.map_some, hwild, Alias.relabel_classes, Alias.relabel_endpoints,
      List.map_append, targets_relabel h.renames a.classes .cls (fun _ => rfl),
      targets_relabel h.renames a.endpoints .endpoint (fun _ => rfl)]
    congr 2
    split
    · simp [List.map_map, Function.comp_def, AliasedEntity.relabel]
    · rfl

theorem mirrors_resolveFileAliases (h : m.Mirrors ρ m') :
    (resolveFileAliases m).Mirrors ρ (resolveFileAliases m') := by
  refine h.mapFiles (fun _ => rfl) (fun _ => rfl) fun f _ => ?_
  have ha : (f.aliases.map (Alias.relabel ρ)).map (resolveAlias m')
      = (f.aliases.map (resolveAlias m)).map (Alias.relabel ρ) := by
    rw [List.map_map, List.map_map]
    exact List.map_congr_left fun a _ => resolveAlias_relabel h a
  simp only [ModelFile.relabel, ha, List.map_append, ModelFile.mk.injEq, true_and, and_true]
  congr 1
  rw [List.flatMap_map, List.map_flatMap]
  refine List.flatMap_congr fun a _ => ?_
  rw [aliasedEntities_relabel h, List.map_map, List.map_map]
  rfl

theorem mirrors_aliasedModel (h : m.Mirrors ρ m') : (aliasedModel m).Mirrors ρ (aliasedModel m') :=
  mirrors_resolveFileAliases (mirrors_resolveUses h)

theorem domains_aliasedModel (m : Model) : (aliasedModel m).domains = m.domains := by
  simp only [aliasedModel, resolveFileAliases, resolveUses, Model.domains,
    Model.mapFiles, List.map_map, List.flatMap_map, Function.comp_def]

/-! ### Scopes -/

def Visible.relabel (ρ : Relabelling) {k : Kind} (v : Visible (Id k)) : Visible (Id k) :=
  { v with target := v.target.relabel ρ }

theorem firstVisible_relabel {k : Kind} (seen : List (Visible (Id k))) (name : String) :
    firstVisible (seen.map (Visible.relabel ρ)) name
      = (firstVisible seen name).map (Visible.relabel ρ) := by
  unfold firstVisible
  rw [List.find?_map]
  rfl

theorem aliasedClasses_relabel (f : ModelFile) :
    (f.relabel ρ).aliasedClasses = f.aliasedClasses.map (Id.relabel ρ) := by
  simp only [ModelFile.aliasedClasses, ModelFile.relabel_resolvedAliases, List.filterMap_map,
    List.map_filterMap]
  congr 1
  funext a
  cases he : a.entity <;> simp [he, AliasedEntity.relabel]

theorem usedFiles_relabel (h : m.Mirrors ρ m') (f : ModelFile) :
    usedFiles m' (f.relabel ρ) = (usedFiles m f).map fun (index, used) =>
      (index, used.relabel ρ) := by
  simp only [usedFiles, ModelFile.relabel_uses, List.zipIdx_map, List.filterMap_map,
    List.map_filterMap]
  congr 1
  funext ⟨use, index⟩
  simp only [Function.comp, Prod.map, h.target_file?, Option.map_map, id]
  rfl

theorem scopeOf_relabel (h : m.Mirrors ρ m') (f : ModelFile) :
    (scopeOf m' (f.relabel ρ)).classes = (scopeOf m f).classes.map (Visible.relabel ρ) ∧
      (scopeOf m' (f.relabel ρ)).decorators = (scopeOf m f).decorators.map (Visible.relabel ρ) := by
  have haliased : (f.relabel ρ).aliasedClasses.filterMap m'.cls?
      = (f.aliasedClasses.filterMap m.cls?).map (Class.relabel ρ) := by
    rw [aliasedClasses_relabel, List.filterMap_map, List.map_filterMap]
    exact List.filterMap_congr fun id _ => h.cls? id
  have hvisible : ∀ (origin : Origin) (c : Class),
      visibleClass origin (c.relabel ρ) = (visibleClass origin c).relabel ρ := fun _ _ => rfl
  have hvisible' : ∀ (origin : Origin) (d : Decorator),
      visibleDecorator origin (d.relabel ρ) = (visibleDecorator origin d).relabel ρ :=
      fun _ _ => rfl
  constructor
  · simp only [scopeOf, haliased, usedFiles_relabel h, ModelFile.relabel_classes, List.map_append,
      List.map_map, List.flatMap_map, List.map_flatMap, Function.comp_def, hvisible]
  · simp only [scopeOf, usedFiles_relabel h, ModelFile.relabel_decorators,
      List.map_append, List.map_map, List.flatMap_map, List.map_flatMap,
      Function.comp_def, hvisible']

theorem scope_findClass (h : m.Mirrors ρ m') (f : ModelFile) (name : String) :
    (scopeOf m' (f.relabel ρ)).findClass name
      = ((scopeOf m f).findClass name).map (Relabelled.relabel ρ) := by
  unfold Scope.findClass
  rw [(scopeOf_relabel h f).1, firstVisible_relabel, Option.map_map, Option.map_map]
  rfl

theorem scope_findDecorator (h : m.Mirrors ρ m') (f : ModelFile) (name : String) :
    (scopeOf m' (f.relabel ρ)).findDecorator name
      = ((scopeOf m f).findDecorator name).map (Relabelled.relabel ρ) := by
  unfold Scope.findDecorator
  rw [(scopeOf_relabel h f).2, firstVisible_relabel, Option.map_map, Option.map_map]
  rfl

/-! ### References -/

/-- Domains are found by name in any order if no two have the same. -/
theorem findDomain_relabel (h : m.Mirrors ρ m') (hd : m.DomainsApart) (name : String) :
    findDomain m' name = (findDomain m name).map (Relabelled.relabel ρ) := by
  have hnodup : ((m.domains.map (Domain.relabel ρ)).map fun d => d.name.value).Nodup := by
    rw [List.map_map]
    exact hd
  unfold findDomain Model.domainNamed?
  rw [find?_perm h.domains hnodup, List.find?_map, Option.map_map, Option.map_map]
  rfl

theorem resolveKind_relabel (hρ : ρ.Renames) {cls cls' : String → Option ClassId}
    {domain domain' : String → Option DomainId}
    (hc : ∀ name, cls' name = (cls name).map (Relabelled.relabel ρ))
    (hd : ∀ name, domain' name = (domain name).map (Relabelled.relabel ρ)) (k : PropertyKind) :
    resolveKind cls' domain' (k.relabel ρ) = (resolveKind cls domain k).relabel ρ := by
  cases k with
  | regular p =>
    simp only [PropertyKind.relabel, resolveKind, RegularProperty.relabel, resolveBy_relabel hρ hd]
  | association p =>
    simp only [PropertyKind.relabel, resolveKind, AssociationProperty.relabel,
      resolveBy_relabel hρ hc]
  | composition p =>
    simp only [PropertyKind.relabel, resolveKind, CompositionProperty.relabel,
      resolveBy_relabel hρ hc, Option.map_map, Function.comp_def, resolveBy_relabel hρ hd]
  | propertyAlias p =>
    simp only [PropertyKind.relabel, resolveKind, AliasProperty.relabel, resolveBy_relabel hρ hc]

theorem resolveHeads_relabel (hρ : ρ.Renames) {s s' : Scope}
    {domain domain' : String → Option DomainId}
    (hc : ∀ name, s'.findClass name = (s.findClass name).map (Relabelled.relabel ρ))
    (hd : ∀ name, s'.findDecorator name = (s.findDecorator name).map (Relabelled.relabel ρ))
    (hdomain : ∀ name, domain' name = (domain name).map (Relabelled.relabel ρ)) (f : ModelFile) :
    resolveClassHeads s' (resolveDomains domain' (f.relabel ρ))
      = (resolveClassHeads s (resolveDomains domain f)).relabel ρ := by
  simp only [resolveClassHeads, resolveDomains, ModelFile.mapClasses,
    ModelFile.relabel, List.map_map, ModelFile.mk.injEq, true_and, and_true]
  refine ⟨List.map_congr_left fun d _ => ?_, List.map_congr_left fun c _ => ?_⟩
  · simp only [Function.comp, Domain.relabel, List.map_map, Domain.mk.injEq, true_and, and_true]
    exact List.map_congr_left fun e _ => congrArg (Prod.mk e.1) (resolveBy_relabel hρ hdomain e.2)
  · simp only [Function.comp, Class.relabel, List.map_map, Option.map_map, Class.mk.injEq, true_and,
      and_true]
    refine ⟨?_, List.map_congr_left fun u _ => ?_⟩
    · congr 1
      funext r
      exact resolveBy_relabel hρ hc r
    · simp only [Function.comp, resolveUsage, DecoratorUsage.relabel, resolveBy_relabel hρ hd]

theorem resolveReferencesOf_relabel (h : m.Mirrors ρ m') (hd : m.DomainsApart) (f : ModelFile) :
    resolveReferencesOf m' (f.relabel ρ) = (resolveReferencesOf m f).relabel ρ := by
  unfold resolveReferencesOf
  simp only []
  rw [resolveHeads_relabel h.renames (scope_findClass h f) (scope_findDecorator h f)
    (findDomain_relabel h hd)]
  refine ModelFile.mapProperties_relabel (fun p => ?_) _
  simp only [Property.relabel, Property.mk.injEq, true_and]
  exact resolveKind_relabel h.renames (scope_findClass h f) (findDomain_relabel h hd) p.kind

theorem mirrors_namedModel (h : m.Mirrors ρ m') (hd : m.DomainsApart) :
    (namedModel m).Mirrors ρ (namedModel m') := by
  have ha := mirrors_aliasedModel h
  have hda : (aliasedModel m).DomainsApart := by
    rw [Model.DomainsApart, domains_aliasedModel]
    exact hd
  exact ha.mapFiles (fun _ => rfl) (fun _ => rfl) fun f _ => resolveReferencesOf_relabel ha hda f

/-! ### Uses that nothing needs -/

theorem isUseNeeded_relabel (h : m.Mirrors ρ m') (f : ModelFile) (references : List EntityReference)
    (index : Nat) :
    isUseNeeded (scopeOf m' (f.relabel ρ)) (references.map (EntityReference.relabel ρ)) index
      = isUseNeeded (scopeOf m f) references index := by
  obtain ⟨hc, hd⟩ := scopeOf_relabel h f
  unfold isUseNeeded
  rw [List.any_map]
  congr 1
  funext x
  cases x with
  | cls r =>
    simp only [Function.comp, EntityReference.relabel, text_relabel, hc, firstVisible_relabel,
      Option.any_map]
    rfl
  | decorator r =>
    simp only [Function.comp, EntityReference.relabel, text_relabel, hd, firstVisible_relabel,
      Option.any_map]
    rfl
  | domain r => rfl

theorem uselessUses_relabel (h : m.Mirrors ρ m') (f : ModelFile) :
    uselessUses m' (f.relabel ρ) = (uselessUses m f).map (Reference.relabel ρ) := by
  unfold uselessUses
  simp only [ModelFile.relabel_uses, List.zipIdx_map, List.filter_map, List.map_map,
    fileReferences_relabel]
  have htest : (fun x : FileReference × Nat => x.1.target.isSome &&
      !isUseNeeded (scopeOf m' (f.relabel ρ))
        ((fileReferences f).map (EntityReference.relabel ρ)) x.2) ∘ Prod.map
          (Reference.relabel ρ) id
      = fun x => x.1.target.isSome && !isUseNeeded (scopeOf m f) (fileReferences f) x.2 := by
    funext ⟨use, index⟩
    simp only [Function.comp, Prod.map, id, isUseNeeded_relabel h, h.renames.target,
      Option.isSome_map]
  rw [htest]
  rfl

/-- **Linking mirrored models by name gives mirrored models**, if no two domains have the same
name. -/
theorem mirrors_linkNames (h : m.Mirrors ρ m') (hd : m.DomainsApart) :
    (linkNames m).model.Mirrors ρ (linkNames m').model := by
  have hn := mirrors_namedModel h hd
  rw [linkNames_model, linkNames_model]
  refine hn.mapFiles (fun _ => rfl) (fun _ => rfl) fun f _ => ?_
  rw [uselessUses_relabel hn]
  rfl

end Linking

end EntityModel
