import EntityModel.Proofs.Locality.Parts
import EntityModel.Proofs.Mirroring.LinkedNames
import EntityModel.Proofs.Watching.FileLinks

/-!
# Linking a part by name

Names of classes and decorators are looked up in the file itself and in the files that it uses or
takes aliases from.  So where the files of a set name only files of the set (`Model.NamesWithin`),
linking them by name is the same in the whole model and in the part (`part_linkNames`), and
afterwards they point nowhere else (`closed_linkNames`).
-/

namespace EntityModel

/-- The files of the set use files of the set, and take aliases from these. -/
def Model.NamesWithin (K : FileId → Bool) (m : Model) : Prop :=
  ∀ f ∈ m.files, K f.id = true → ∀ name ∈ f.fileNames, ∀ g,
    m.fileNamed? name = some g → K g.id = true

namespace Linking

variable {K : FileId → Bool} {m : Model}

theorem fileNamed?_part {name : String} (h : ∀ g, m.fileNamed? name = some g → K g.id = true) :
    (m.part K).fileNamed? name = (m.fileNamed? name).map ModelFile.plain := by
  unfold Model.fileNamed? Model.part at *
  rw [List.find?_map, List.find?_filter]
  congr 1
  cases hg : m.files.find? (·.name == name) with
  | none =>
    rw [List.find?_eq_none] at hg ⊢
    intro f hf
    simpa [ModelFile.plain, ModelFile.mapProperties, ModelFile.mapLists] using fun _ => hg f hf
  | some g =>
    obtain ⟨hname, before, after, hfiles, hfirst⟩ := List.find?_eq_some_iff_append.mp hg
    refine List.find?_eq_some_iff_append.mpr
      ⟨decide_eq_true ⟨h g hg, hname⟩, before, after, hfiles, fun f hf => ?_⟩
    have hne := hfirst f hf
    rw [Bool.not_eq_true'] at hne ⊢
    exact decide_eq_false fun hand => absurd (hne.symm.trans hand.2) (by simp)

/-! ### Uses -/

theorem resolveUsesFrom_part {uses : List FileReference}
    (h : ∀ r ∈ uses, ∀ g, m.fileNamed? r.text = some g → K g.id = true) (seen : List String) :
    resolveUsesFrom (m.part K) seen uses = resolveUsesFrom m seen uses := by
  induction uses generalizing seen with
  | nil => rfl
  | cons use rest ih =>
    simp only [resolveUsesFrom, fileNamed?_part (h use List.mem_cons_self),
      ih fun r hr => h r (List.mem_cons_of_mem _ hr)]
    cases m.fileNamed? use.text <;> rfl

theorem part_resolveUses (h : m.NamesWithin K) :
    (resolveUses m).part K = resolveUses (m.part K) := by
  refine Model.part_mapFiles (fun _ => rfl) fun f hf hK => ?_
  have huses : resolveUsesFrom (m.part K) [] f.uses = resolveUsesFrom m [] f.uses :=
    resolveUsesFrom_part
      (fun r hr => h f hf hK r.text (List.mem_append_left _ (List.mem_map_of_mem hr))) []
  simp only [ModelFile.plain, ModelFile.mapProperties, ModelFile.mapLists, huses]

theorem namesWithin_resolveUses (h : m.NamesWithin K) : (resolveUses m).NamesWithin K := by
  intro f hf hK name hname g hg
  obtain ⟨d, hd, rfl⟩ := List.mem_map.mp hf
  rw [fileNamed?_resolveUses, Option.map_eq_some_iff] at hg
  obtain ⟨g, hg, rfl⟩ := hg
  refine h d hd hK name ?_ g hg
  unfold ModelFile.fileNames at hname ⊢
  rwa [texts_resolveUsesFrom] at hname

/-! ### Aliases of files -/

theorem findClass_plain (f : ModelFile) (name : String) :
    findClass f.plain name = findClass f name := by
  simp only [findClass, ModelFile.plain, ModelFile.mapProperties, ModelFile.mapLists,
    List.find?_map, Option.map_map]
  rfl

theorem findEndpoint_plain (f : ModelFile) (name : String) :
    findEndpoint f.plain name = findEndpoint f name := by
  simp only [findEndpoint, ModelFile.plain, ModelFile.mapProperties, ModelFile.mapLists,
    List.find?_map, Option.map_map]
  rfl

theorem resolveAlias_part {a : Alias} (h : ∀ g, m.fileNamed? a.file.text = some g → K g.id = true) :
    resolveAlias (m.part K) a = resolveAlias m a := by
  unfold resolveAlias
  rw [fileNamed?_part h]
  cases m.fileNamed? a.file.text with
  | none => rfl
  | some g =>
    have hc : findClass g.plain = findClass g := funext (findClass_plain g)
    have he : findEndpoint g.plain = findEndpoint g := funext (findEndpoint_plain g)
    simp only [Option.map_some, hc, he]
    rfl

theorem aliasedEntities_part {a : Alias} (h : ∀ id, a.file.target = some id → K id = true) :
    aliasedEntities (m.part K) a = aliasedEntities m a := by
  unfold aliasedEntities
  cases ht : a.file.target with
  | none => rfl
  | some id =>
    rw [Option.bind_some, Option.bind_some, Model.file?_part (h id ht)]
    cases m.file? id with
    | none => rfl
    | some f =>
      simp only [Option.map_some, ModelFile.plain, ModelFile.mapProperties,
        ModelFile.mapLists, List.map_map]
      rfl

theorem part_resolveFileAliases (h : m.NamesWithin K)
    (ho : ∀ f ∈ m.files, ∀ a ∈ f.aliases, a.file.target = none) :
    (resolveFileAliases m).part K = resolveFileAliases (m.part K) := by
  refine Model.part_mapFiles (fun _ => rfl) fun f hf hK => ?_
  have hnamed : ∀ a ∈ f.aliases, ∀ g, m.fileNamed? a.file.text = some g →
      K g.id = true := fun a ha =>
    h f hf hK a.file.text
      (List.mem_append_right _ (List.mem_map_of_mem (f := fun a => a.file.text) ha))
  have haliases : f.aliases.map (resolveAlias (m.part K)) = f.aliases.map (resolveAlias m) :=
    List.map_congr_left fun a ha => resolveAlias_part (hnamed a ha)
  have hfound : (f.aliases.map (resolveAlias m)).flatMap
        (fun a => (aliasedEntities (m.part K) a).map
        fun entity => ({ aliasId := a.id, entity, location := a.location } : ResolvedAlias))
      = (f.aliases.map (resolveAlias m)).flatMap fun a => (aliasedEntities m a).map
        fun entity => ({ aliasId := a.id, entity, location := a.location } : ResolvedAlias) := by
    refine List.flatMap_congr fun a' ha' => ?_
    obtain ⟨a, ha, rfl⟩ := List.mem_map.mp ha'
    refine congrArg (List.map _) (aliasedEntities_part fun id hid => ?_)
    obtain ⟨g, hg, rfl⟩ := followsName_resolveAlias (ho f hf a ha) id hid
    rw [text_resolveAlias] at hg
    exact hnamed a ha g hg
  simp only [ModelFile.plain, ModelFile.mapProperties, ModelFile.mapLists, haliases, hfound]

/-! ### Scopes -/

/-- What the files of the set see lies in the set: the files that they use and the classes that
aliases bring in. -/
structure SeesWithin (K : FileId → Bool) (m : Model) : Prop where
  uses : ∀ f ∈ m.files, K f.id = true → ∀ r ∈ f.uses, ∀ id, r.target = some id → K id = true
  aliased : ∀ f ∈ m.files, K f.id = true → ∀ C ∈ f.aliasedClasses, K C.file = true

theorem exists_file_of_aliased (hm : m.Numbered) {a : Alias} (ho : AliasOpen a) {C : ClassId}
    (h : .cls C ∈ aliasedEntities m (resolveAlias m a)) :
    ∃ g, m.fileNamed? a.file.text = some g ∧ C.file = g.id := by
  unfold resolveAlias at h
  cases hg : m.fileNamed? a.file.text with
  | none => simp [hg, aliasedEntities, ho.file] at h
  | some g =>
    refine ⟨g, rfl, ?_⟩
    have hmem := (exists_of_fileNamed? hg).1
    have hfound : m.file? g.id = some g := Model.file?_of_mem hm.files hmem
    simp only [hg, aliasedEntities, Reference.resolve, Option.bind_some, hfound,
      List.mem_append] at h
    rcases h with (h | h) | h
    · split at h
      · rcases List.mem_append.mp h with h | h
        · obtain ⟨c, hc, he⟩ := List.mem_map.mp h
          obtain rfl := AliasedEntity.cls.inj he
          exact (hm.classes g hmem).file hc
        · obtain ⟨e, -, he⟩ := List.mem_map.mp h
          exact absurd he (by simp)
      · exact absurd h List.not_mem_nil
    · obtain ⟨r, hr, he⟩ := List.mem_filterMap.mp h
      obtain ⟨t, ht, he⟩ := Option.map_eq_some_iff.mp he
      obtain rfl := AliasedEntity.cls.inj he
      rw [getD_map, List.mem_map] at hr
      obtain ⟨r, hr, rfl⟩ := hr
      rw [resolveBy_open _ (ho.classes r hr)] at ht
      obtain ⟨c, hc, rfl⟩ := Option.map_eq_some_iff.mp ht
      exact (hm.classes g hmem).file (List.mem_of_find?_eq_some hc)
    · obtain ⟨r, -, he⟩ := List.mem_filterMap.mp h
      obtain ⟨t, -, he⟩ := Option.map_eq_some_iff.mp he
      exact absurd he (by simp)

theorem seesWithin_aliasedModel (hm : m.AsLoaded) (h : m.NamesWithin K) :
    SeesWithin K (aliasedModel m) where
  uses f hf hK r hr id hid := by
    obtain ⟨u, hu, rfl⟩ := List.mem_map.mp hf
    obtain ⟨d, hd, rfl⟩ := List.mem_map.mp hu
    have hopen : ∀ r ∈ d.uses, r.target = none := fun r hr =>
      (Reference.of_fixed ((hm.fresh d hd).uses r hr)).1
    obtain ⟨g, hg, rfl⟩ := followsName_resolveUsesFrom m d.uses [] hopen r hr id hid
    refine h d hd hK r.text (List.mem_append_left _ ?_) g hg
    rw [← texts_resolveUsesFrom m]
    exact List.mem_map_of_mem hr
  aliased f hf hK C hC := by
    obtain ⟨u, hu, rfl⟩ := List.mem_map.mp hf
    obtain ⟨d, hd, rfl⟩ := List.mem_map.mp hu
    have hused : (resolveUses m).Numbered := hm.numbered.mapFiles fun _ _ => rfl
    simp only [ModelFile.aliasedClasses, List.filterMap_append, List.mem_append] at hC
    rcases hC with hC | hC
    · -- a draft brings in nothing, least of all from elsewhere
      have hfixed := congrArg ModelFile.aliasedClasses (hm.fresh d hd)
      have hown : C ∈ d.aliasedClasses := hC
      rw [← hfixed, aliasedClasses_relabel, List.mem_map] at hown
      obtain ⟨C', -, rfl⟩ := hown
      exact hK
    · obtain ⟨x, hx, he⟩ := List.mem_filterMap.mp hC
      obtain ⟨a', ha', hx⟩ := List.mem_flatMap.mp hx
      obtain ⟨a, ha, rfl⟩ := List.mem_map.mp ha'
      obtain ⟨entity, hentity, rfl⟩ := List.mem_map.mp hx
      cases entity with
      | endpoint id => exact absurd he (by simp)
      | cls id =>
        obtain rfl : id = C := Option.some.inj he
        obtain ⟨g, hg, hfile⟩ :=
          exists_file_of_aliased hused (aliasOpen_of_fixed ((hm.fresh d hd).aliases a ha)) hentity
        rw [hfile]
        refine namesWithin_resolveUses h _ (List.mem_map_of_mem hd) hK a.file.text ?_ g hg
        exact List.mem_append_right _ (List.mem_map_of_mem (f := fun a : Alias => a.file.text) ha)

theorem usedFiles_part (h : SeesWithin K m) {f : ModelFile} (hf : f ∈ m.files)
    (hK : K f.id = true) :
    usedFiles (m.part K) f.plain = (usedFiles m f).map fun (index, used) =>
      (index, used.plain) := by
  unfold usedFiles
  rw [List.map_filterMap]
  refine List.filterMap_congr fun ⟨r, index⟩ hr => ?_
  have hmem : r ∈ f.uses := (List.mem_zipIdx' hr).2 ▸ List.getElem_mem _
  cases ht : r.target with
  | none => simp [ht]
  | some id =>
    simp only [ht, Option.bind_some, Model.file?_part (h.uses f hf hK r hmem id ht), Option.map_map]
    rfl

theorem used_within (h : SeesWithin K m) {f : ModelFile} (hf : f ∈ m.files)
    (hK : K f.id = true) {index : Nat} {g : ModelFile} (hg : (index, g) ∈ usedFiles m f) :
    g ∈ m.files ∧ K g.id = true := by
  obtain ⟨⟨r, i⟩, hr, he⟩ := List.mem_filterMap.mp hg
  obtain ⟨g', hg', he⟩ := Option.map_eq_some_iff.mp he
  obtain ⟨-, rfl⟩ := Prod.mk.inj he
  obtain ⟨id, ht, hg'⟩ := Option.bind_eq_some_iff.mp hg'
  obtain ⟨hmem, rfl⟩ := Model.mem_of_file? hg'
  exact ⟨hmem, h.uses f hf hK r ((List.mem_zipIdx' hr).2 ▸ List.getElem_mem _) _ ht⟩

theorem scopeOf_part (h : SeesWithin K m) {f : ModelFile} (hf : f ∈ m.files) (hK : K f.id = true) :
    scopeOf (m.part K) f.plain = scopeOf m f := by
  have haliased : f.plain.aliasedClasses.filterMap (m.part K).cls?
      = (f.aliasedClasses.filterMap m.cls?).map Class.plain := by
    rw [List.map_filterMap]
    exact List.filterMap_congr fun C hC => Model.cls?_part (h.aliased f hf hK C hC)
  have hclasses : ∀ (o : Origin) (g : ModelFile),
      g.plain.classes.map (visibleClass o) = g.classes.map (visibleClass o) :=
      fun _ _ => List.map_map
  have hdecorators : ∀ (o : Origin) (g : ModelFile),
      g.plain.decorators.map (visibleDecorator o) = g.decorators.map (visibleDecorator o) :=
    fun _ _ => List.map_map
  unfold scopeOf
  rw [haliased, usedFiles_part h hf hK]
  simp only [hclasses, hdecorators, List.map_map, List.flatMap_map, Scope.mk.injEq, and_true]
  rfl

/-! ### References -/

theorem findDomain_part (K : FileId → Bool) (m : Model) :
    findDomain (m.part K) = fun _ => none := by
  have hnone : (m.part K).domains = [] := by
    simp [Model.domains, Model.part, List.flatMap_map, ModelFile.plain]
  funext name
  rw [findDomain, Model.domainNamed?, hnone]
  rfl

theorem plain_resolveKind (cls : String → Option ClassId) (domain : String → Option DomainId)
    (k : PropertyKind) :
    (resolveKind cls domain k).plain = resolveKind cls (fun _ => none) k.plain := by
  have hopen : ∀ r : DomainReference, resolveBy (fun _ => none) r = r := fun _ => rfl
  cases k with
  | regular p => simp only [resolveKind, PropertyKind.plain, resolveBy_name, hopen]
  | composition p => cases hd : p.domain
    <;> simp [resolveKind, PropertyKind.plain, hd, resolveBy_name, hopen]
  | _ => rfl

theorem plain_resolveReferencesOf (h : SeesWithin K m) {f : ModelFile} (hf : f ∈ m.files)
    (hK : K f.id = true) :
    (resolveReferencesOf m f).plain = resolveReferencesOf (m.part K) f.plain := by
  unfold resolveReferencesOf
  rw [scopeOf_part h hf hK, findDomain_part]
  generalize scopeOf m f = s
  have hp : ∀ p : Property,
      ({ p with kind := resolveKind s.findClass (findDomain m) p.kind } : Property).plain
        = { p.plain with kind := resolveKind s.findClass (fun _ => none) p.plain.kind } := fun p =>
    congrArg (fun k => ({ p with kind := k } : Property)) (plain_resolveKind _ _ p.kind)
  simp only [ModelFile.plain, ModelFile.mapProperties, ModelFile.mapLists, resolveClassHeads,
    ModelFile.mapClasses, resolveDomains, List.map_map, Function.comp_def, hp, List.map_nil,
    Endpoint.mapParts, Option.map_map]

/-- **Resolving references by name is the same in the part.** -/
theorem part_resolveReferences (h : SeesWithin K m) :
    (resolveReferences m).part K = resolveReferences (m.part K) :=
  Model.part_mapFiles (fun _ => rfl) fun _ hf hK => plain_resolveReferencesOf h hf hK

/-- **Linking by name is the same in the part**, where its files name files of the set. -/
theorem part_linkNames (hm : m.AsLoaded) (h : m.NamesWithin K) :
    (linkNames m).model.part K = namedModel (m.part K) := by
  have haliased : (aliasedModel m).part K = aliasedModel (m.part K) := by
    unfold aliasedModel
    rw [part_resolveFileAliases (namesWithin_resolveUses h), part_resolveUses h]
    intro f hf a ha
    obtain ⟨d, hd, rfl⟩ := List.mem_map.mp hf
    exact (aliasOpen_of_fixed ((hm.fresh d hd).aliases a ha)).file
  have hnoted : (linkNames m).model.part K = ((namedModel m).part K).mapFiles fun f => f :=
    Model.part_mapFiles (fun _ => rfl) fun _ _ _ => rfl
  rw [hnoted, namedModel, part_resolveReferences (seesWithin_aliasedModel hm h), haliased]
  exact congrArg Model.mk (List.map_id' _)

/-! ### What the files of the set point to -/

theorem exists_reference_of_pointsTo {p : Property} {C : ClassId} (h : p.pointsTo = some C) :
    ∃ r, EntityReference.cls r ∈ propertyReferences p ∧ r.target = some C := by
  obtain ⟨id, l, k⟩ := p
  cases k with
  | regular => exact absurd h (by simp [Property.pointsTo])
  | association a => exact ⟨a.association, List.mem_cons_self, h⟩
  | composition c => exact ⟨c.composition, List.mem_cons_self, h⟩
  | propertyAlias a => exact ⟨a.cls, List.mem_cons_self, h⟩

theorem findClass_within (hm : m.Numbered) (h : SeesWithin K m) {f : ModelFile} (hf : f ∈ m.files)
    (hK : K f.id = true) {name : String} {C : ClassId}
    (hC : (scopeOf m f).findClass name = some C) :
    K C.file = true := by
  obtain ⟨v, hv, rfl⟩ := Option.map_eq_some_iff.mp hC
  have hv := List.mem_of_find?_eq_some hv
  simp only [scopeOf, List.mem_append, List.mem_map, List.mem_flatMap] at hv
  rcases hv with (⟨c, hc, rfl⟩ | ⟨c, hc, rfl⟩) | ⟨⟨index, g⟩, hg, c, hc, rfl⟩
  · rw [visibleClass, (hm.classes f hf).file hc]
    exact hK
  · obtain ⟨id, hid, hc⟩ := List.mem_filterMap.mp hc
    obtain ⟨-, rfl⟩ := hm.cls?_iff.mp hc
    exact h.aliased f hf hK c.id hid
  · obtain ⟨hmem, hused⟩ := used_within h hf hK hg
    rw [visibleClass, (hm.classes g hmem).file hc]
    exact hused

theorem findDecorator_within (hm : m.Numbered) (h : SeesWithin K m) {f : ModelFile}
    (hf : f ∈ m.files) (hK : K f.id = true) {name : String} {D : DecoratorId}
    (hD : (scopeOf m f).findDecorator name = some D) : K D.file = true := by
  obtain ⟨v, hv, rfl⟩ := Option.map_eq_some_iff.mp hD
  have hv := List.mem_of_find?_eq_some hv
  simp only [scopeOf, List.mem_append, List.mem_map, List.mem_flatMap] at hv
  rcases hv with ⟨d, hd, rfl⟩ | ⟨⟨index, g⟩, hg, d, hd, rfl⟩
  · rw [visibleDecorator, (hm.decorators f hf).file hd]
    exact hK
  · obtain ⟨hmem, hused⟩ := used_within h hf hK hg
    rw [visibleDecorator, (hm.decorators g hmem).file hd]
    exact hused

/-- The reference is to a domain, or it is open or points into a file of the set. -/
def EntityReference.Within (K : FileId → Bool) : EntityReference → Prop
  | .cls r => ∀ C, r.target = some C → K C.file = true
  | .decorator r => ∀ D, r.target = some D → K D.file = true
  | .domain _ => True

theorem references_within (hm : m.AsLoaded) (h : m.NamesWithin K) {f : ModelFile}
    (hf : f ∈ (linkNames m).model.files) (hK : K f.id = true) :
    ∀ x ∈ fileReferences f, x.Within K := by
  obtain ⟨n, hn, rfl⟩ := List.mem_map.mp hf
  obtain ⟨a, ha, rfl⟩ := List.mem_map.mp hn
  obtain ⟨d, hd, hsame⟩ : ∃ d ∈ m.files, fileReferences a = fileReferences d := by
    obtain ⟨u, hu, rfl⟩ := List.mem_map.mp ha
    obtain ⟨d, hd, rfl⟩ := List.mem_map.mp hu
    exact ⟨d, hd, fileReferences_congr rfl rfl rfl rfl⟩
  have hnum := numbered_aliasedModel hm.numbered
  have hsees := seesWithin_aliasedModel hm h
  intro x hx
  have hmem : x ∈ fileReferences (resolveReferencesOf (aliasedModel m) a) := hx
  clear hx
  rw [fileReferences_resolveReferencesOf, List.mem_map, hsame] at hmem
  obtain ⟨x, hx, rfl⟩ := hmem
  have hfixed := (hm.fresh d hd).references x hx
  cases x with
  | cls r =>
    intro C hC
    have hopen := (Reference.of_fixed (r := r) (by simpa [EntityReference.relabel] using hfixed)).1
    rw [resolveBy_open _ hopen] at hC
    exact findClass_within hnum hsees ha hK hC
  | decorator r =>
    intro D hD
    have hopen := (Reference.of_fixed (r := r) (by simpa [EntityReference.relabel] using hfixed)).1
    rw [resolveBy_open _ hopen] at hD
    exact findDecorator_within hnum hsees ha hK hD
  | domain r => trivial

/-- **Once linked by name, the files of the set point nowhere else.** -/
theorem closed_linkNames (hm : m.AsLoaded) (h : m.NamesWithin K) :
    (linkNames m).model.Closed K := by
  have hnum := numbered_linkNames hm.numbered
  have hofClass : ∀ c ∈ (linkNames m).model.classes, K c.id.file = true → ∀ x ∈ classReferences c,
      x.Within K := by
    intro c hc hK x hx
    obtain ⟨f, hf, hc⟩ := List.mem_flatMap.mp hc
    rw [(hnum.classes f hf).file hc] at hK
    refine references_within hm h hf hK x ?_
    simp only [fileReferences, List.mem_append, List.mem_flatMap]
    exact Or.inl (Or.inr ⟨c, hc, hx⟩)
  refine ⟨fun c hc hK C hC => ?_, fun c hc hK u hu D hD => ?_, fun p hp hK C hC => ?_⟩
  · obtain ⟨r, hr, ht⟩ := Option.bind_eq_some_iff.mp hC
    refine hofClass c hc hK (.cls r) ?_ C ht
    simp [classReferences, hr]
  · refine hofClass c hc hK (.decorator u.decorator) ?_ D hD
    simp only [classReferences, List.mem_append]
    exact Or.inl (Or.inr
      (List.mem_map_of_mem
        (f := fun u : DecoratorUsage => EntityReference.decorator u.decorator) hu))
  · obtain ⟨f, hf, hp⟩ := Model.exists_file_of_mem hp
    rw [((Model.numbered_iff.mp hnum).2 f hf).owner_file hp] at hK
    obtain ⟨r, hr, ht⟩ := exists_reference_of_pointsTo hC
    exact references_within hm h hf hK _ (mem_fileReferences hp hr) C ht

end Linking

end EntityModel
