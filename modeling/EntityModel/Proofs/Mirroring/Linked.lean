import EntityModel.Proofs.Linking.Warnings
import EntityModel.Proofs.Mirroring.Validation

/-!
# Linking mirrored models

Linking takes mirrored drafts to mirrored models as long as it finds no error in one of them, and
then it finds none in the other and warns of the same (`mirrors_link`, `warnings_of_mirrors`).
Three things in linking depend on the order of the files: which of two domains of one name is meant,
which uses close a circle, and in which order the aliases of a round are pointed.  The first is
excluded because nothing is declared twice, the others because there are no circles.
-/

namespace EntityModel.Linking

variable {ρ : Relabelling} {D D' m m' : Model} {rules : NamingRules}

/-! ### Drafts without errors -/

theorem domainNames_linkNames (m : Model) :
    (linkNames m).model.domains.map (·.name.value) = m.domains.map (·.name.value) := by
  simp only [linkNames, noteUselessUses, resolveReferences, resolveFileAliases, resolveUses,
    Model.domains, Model.mapFiles, List.map_map, List.flatMap_map, Function.comp_def,
    List.map_flatMap, resolveReferencesOf, ModelFile.mapProperties, ModelFile.mapLists,
    resolveClassHeads, ModelFile.mapClasses, resolveDomains]

theorem domains_of_sameFrame (h : Model.SameFrame m m') : m'.domains = m.domains := by
  have hframe : ∀ n : Model,
      n.domains = (n.files.map ModelFile.frame).flatMap ModelFile.domains := by
    intro n
    rw [List.flatMap_map]
    rfl
  rw [hframe, hframe, h]

/-- If nothing is declared twice, domains have different names. -/
theorem domainsApart_of_no_duplicates (h : Validation.duplicates m = []) : m.DomainsApart := by
  simp only [Validation.duplicates, Validation.duplicateDomains, List.append_eq_nil_iff,
    List.map_eq_nil_iff] at h
  exact Validation.repeated_eq_nil_iff.mp h.1.1.2

/-- If nothing is declared twice in the linked model, the domains of the drafts have different
names. -/
theorem domainsApart_of_duplicates (hD : D.AsLoaded)
    (hnone : Validation.duplicates (D.link rules).model = []) : D.DomainsApart := by
  have hnodup := domainsApart_of_no_duplicates hnone
  have hdomains : (D.link rules).model.domains = (associated rules D).domains := by
    rw [link_model, resolvePropertyReferences_eq]
    simp only [Model.domains, Model.mapClasses, Model.mapFiles, List.flatMap_map,
      ModelFile.mapClasses]
  rw [Model.DomainsApart, hdomains, domains_of_sameFrame (sameFrame_associated rules hD),
    domainNames_linkNames] at hnodup
  exact hnodup

/-- If linking by name reports nothing, it finds whatever properties name. -/
theorem referencesKnown_of_linkNames (hnone : (linkNames m).problems = []) :
    ReferencesKnown (linkNames m).model := by
  simp only [linkNames, List.append_eq_nil_iff] at hnone
  have hnone : referenceProblems (namedModel m) = [] := hnone.1.2
  intro p hp x hx
  obtain ⟨f, hf, hp⟩ := Model.exists_file_of_mem hp
  obtain ⟨n, hn, rfl⟩ := List.mem_map.mp hf
  have hreported := List.flatMap_eq_nil_iff.mp hnone n hn
  rw [List.map_eq_nil_iff, List.filter_eq_nil_iff] at hreported
  simpa using hreported x (mem_fileReferences hp hx)

/-! ### The stages together -/

/-- **Linking mirrored drafts, one of them without errors, gives mirrored models**, and in both of
them there is nothing but warnings of what is not used. -/
theorem mirrors_link (h : D.Mirrors ρ D') (hD : D.AsLoaded) (hD' : D'.AsLoaded)
    (hnone : ∀ d ∈ (D.link rules).problems, d.isError = false) :
    (D.link rules).model.Mirrors ρ (D'.link rules).model ∧
      (D.link rules).problems = unusedProblems (D.link rules).model ∧
      (D'.link rules).problems = unusedProblems (D'.link rules).model := by
  obtain ⟨hnames, hassociations, hclasses, hwords, hwhole⟩ := nothing_reported hnone
  have hduplicates : Validation.duplicates (D.link rules).model = [] := by
    simp only [Validation.problems, List.append_eq_nil_iff] at hwhole
    exact hwhole.1.1.1
  have hapart := domainsApart_of_duplicates hD hduplicates
  have hnamed := mirrors_linkNames h hapart
  -- the rounds over the aliases, equally many in both
  have hrounds : (linkNames D').model.properties.countP isOpenAlias
      = (linkNames D).model.properties.countP isOpenAlias :=
    countP_properties hnamed _ (isOpenAlias_relabel hnamed.renames)
  have hexpanded : (expanded rules D).model.Mirrors ρ (expanded rules D').model ∧
      (expanded rules D).problems = [] ∧ (expanded rules D').problems = [] := by
    have hquiet : ∀ d ∈ (expanded rules D).problems, d.isError = false := fun d hd =>
      hnone d (by rw [link_problems]; simp [hd])
    unfold expanded resolveAliases at hquiet ⊢
    rw [hrounds]
    exact mirrors_aliasRounds _ hnamed (sound_named rules hD) (sound_named rules hD')
      (referencesKnown_of_linkNames hnames) hquiet
  have hassociated : (associated rules D).Mirrors ρ (associated rules D') :=
    mirrors_resolveAssociations false hexpanded.1
  have hlinked : (D.link rules).model.Mirrors ρ (D'.link rules).model := by
    rw [link_model, link_model]
    exact mirrors_resolvePropertyReferences hassociated
  refine ⟨hlinked, ?_, ?_⟩
  · have hparts : (D.link rules).problems = (linkNames D).problems
        ++ ((expanded rules D).problems ++ associationProblems (associated rules D)
          ++ propertyReferenceProblems (D.link rules).model
            ++ asDomainProblems (D.link rules).model)
        ++ Validation.problems (D.link rules).model rules ++ unusedProblems (D.link rules).model :=
        rfl
    rw [hparts, hnames, hexpanded.2.1, hassociations, hclasses, hwords, hwhole]
    simp
  · have hparts : (D'.link rules).problems = (linkNames D').problems
        ++ ((expanded rules D').problems ++ associationProblems (associated rules D')
          ++ propertyReferenceProblems (D'.link rules).model
            ++ asDomainProblems (D'.link rules).model)
        ++ Validation.problems (D'.link rules).model rules
          ++ unusedProblems (D'.link rules).model := rfl
    rw [hparts, problems_linkNames_of_mirrors h hapart hnames, hexpanded.2.2,
      eq_nil_of_perm (perm_associationProblems hassociated) hassociations,
      eq_nil_of_perm (perm_propertyReferenceProblems hlinked) hclasses,
      eq_nil_of_perm (perm_asDomainProblems hlinked) hwords,
      Validation.problems_of_mirrors hlinked hwhole]
    simp

/-! ### Warnings -/

/-- Names of domains are looked up in another order, and what they find is relabelled. -/
theorem usedDomains_relabel (h : m.Mirrors ρ m') (hd : m.DomainsApart) :
    (usedDomains m').Perm ((usedDomains m).map (Id.relabel ρ)) := by
  have hnames : (m'.files.flatMap fileReferences).filterMap EntityReference.domainName?
      |>.Perm ((m.files.flatMap fileReferences).filterMap EntityReference.domainName?) := by
    refine ((perm_flatMap h.files (fileReferences_relabel ρ)).filterMap _).trans
      (List.Perm.of_eq ?_)
    rw [List.filterMap_map]
    refine List.filterMap_congr fun x _ => ?_
    cases x <;> rfl
  have hexchanged : (m'.properties.filterMap (exchangedDomainName m')).Perm
      (m.properties.filterMap (exchangedDomainName m)) := by
    refine (h.properties.filterMap _).trans (List.Perm.of_eq ?_)
    rw [List.filterMap_map]
    exact List.filterMap_congr fun p _ => exchangedDomainName_relabel h p
  have hlookUps : (domainLookUps m').Perm (domainLookUps m) := hnames.append hexchanged
  refine (hlookUps.filterMap _).trans (List.Perm.of_eq ?_)
  rw [usedDomains, List.map_filterMap]
  exact List.filterMap_congr fun name _ => findDomain_relabel h hd name

theorem isDomainUsed_relabel (h : m.Mirrors ρ m') (hd : m.DomainsApart) (id : DomainId) :
    isDomainUsed m' (id.relabel ρ) = isDomainUsed m id := by
  rw [isDomainUsed, isDomainUsed, (usedDomains_relabel h hd).contains_eq, Bool.eq_iff_iff,
    List.contains_iff_mem, List.contains_iff_mem, List.mem_map_of_injective h.renames.id_injective]

theorem unusedIn_relabel (h : m.Mirrors ρ m') (hd : m.DomainsApart) (f : ModelFile) :
    unusedIn m' (f.relabel ρ) = (unusedIn m f).map (Diagnostic.relabel ρ) := by
  have htest : (fun d : Domain => !isDomainUsed m' d.id) ∘ Domain.relabel ρ
      = fun d => !isDomainUsed m d.id := by
    funext d
    simp only [Function.comp, Domain.relabel_id, isDomainUsed_relabel h hd]
  unfold unusedIn
  rw [ModelFile.relabel_uselessImports, ModelFile.relabel_domains, List.filter_map, htest,
    List.map_append, List.map_map, List.map_map, List.map_map, List.map_map]
  rfl

/-- Mirrored models give the same warnings in the order of their files, -/
theorem perm_unusedProblems (h : m.Mirrors ρ m') (hd : m.DomainsApart) :
    (unusedProblems m').Perm ((unusedProblems m).map (Diagnostic.relabel ρ)) :=
  perm_flatMap h.files (unusedIn_relabel h hd)

/-- **and of each file they warn in the same order.** -/
theorem warnings_of_mirrors (h : (D.link rules).model.Mirrors ρ (D'.link rules).model)
    (hd : (D.link rules).model.DomainsApart) (hD : D.AsLoaded) (hD' : D'.AsLoaded) (id : FileId) :
    (unusedProblems (D'.link rules).model).filter (fun d => d.file == ρ.file id)
      = ((unusedProblems (D.link rules).model).filter (fun d => d.file == id)).map
          (Diagnostic.relabel ρ) := by
  rw [filter_unusedProblems hD, filter_unusedProblems hD', h.file?]
  cases (D.link rules).model.file? id with
  | none => rfl
  | some f => exact unusedIn_relabel h hd f

end EntityModel.Linking
