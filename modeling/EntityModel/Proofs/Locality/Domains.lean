import EntityModel.Proofs.Locality.Types
import EntityModel.Proofs.Store.Derived

/-!
# Domains of a linked model

Linking changes domains only in what their words stand for (`domains_link`).  References to domains
are looked up by name among all domains, and where nothing is declared twice each name is that of
one of them (`domainsFound_link`).  So models linked from drafts that agree on a set of files, and
name nothing outside of it there, lie alongside each other (`alongside_link`), and domains of one
draft stay alike whatever else is linked with it (`alike_of_draft`).
-/

namespace EntityModel.Linking

variable {rules : NamingRules} {D D' : Model} {K : FileId → Bool}

def resolvedDomain (find : String → Option DomainId) (d : Domain) : Domain :=
  { d with asDomains := d.asDomains.map fun (word, r) => (word, resolveBy find r) }

theorem findDomain_aliasedModel (m : Model) : findDomain (aliasedModel m) = findDomain m := by
  have hsame : (aliasedModel m).domains = m.domains := by
    simp only [aliasedModel, resolveFileAliases, resolveUses, Model.domains, Model.mapFiles,
      List.flatMap_map]
  funext name
  rw [findDomain, findDomain, Model.domainNamed?, Model.domainNamed?, hsame]

theorem domains_linkNames (m : Model) :
    (linkNames m).model.domains = m.domains.map (resolvedDomain (findDomain m)) := by
  rw [← findDomain_aliasedModel]
  simp only [linkNames, noteUselessUses, resolveReferences, aliasedModel,
    resolveFileAliases, resolveUses, Model.domains, Model.mapFiles, List.map_map, List.flatMap_map,
    List.map_flatMap]
  rfl

/-- **Linking changes domains only in what their words stand for.** -/
theorem domains_link (hD : D.AsLoaded) :
    (D.link rules).model.domains = D.domains.map (resolvedDomain (findDomain D)) := by
  have hdomains : (D.link rules).model.domains = (associated rules D).domains := by
    rw [link_model, resolvePropertyReferences_eq]
    simp only [Model.domains, Model.mapClasses, Model.mapFiles, List.flatMap_map,
      ModelFile.mapClasses]
  rw [hdomains, domains_of_sameFrame (sameFrame_associated rules hD), domains_linkNames]

theorem findDomain_link (hD : D.AsLoaded) : findDomain (D.link rules).model = findDomain D := by
  funext name
  rw [findDomain, findDomain, Model.domainNamed?, Model.domainNamed?, domains_link hD,
    List.find?_map, Option.map_map]
  rfl

/-- What a property of the linked model names as a domain is looked up among the domains of the
drafts. -/
theorem target_of_domain (hD : D.AsLoaded) {p : Property} (hp : p ∈ (D.link rules).model.properties)
    {r : DomainReference} (hr : EntityReference.domain r ∈ propertyReferences p) :
    r.target = findDomain D r.text := by
  rw [properties_link] at hp
  obtain ⟨n, hn, hstem⟩ := stems_associated hD p hp
  obtain ⟨f, hf, hn⟩ := Model.exists_file_of_mem hn
  obtain ⟨d, hd, -, a, -, -, hproperties⟩ := exists_draft_of_linkNames hf
  rw [hproperties, List.mem_map] at hn
  obtain ⟨q, hq, rfl⟩ := hn
  rw [hstem.references, propertyReferences_resolveProperty, List.mem_map] at hr
  obtain ⟨x, hx, he⟩ := hr
  have hfixed := (hD.fresh d hd).references x (mem_fileReferences hq hx)
  cases x with
  | cls | decorator => exact absurd he (by simp [EntityReference.resolve])
  | domain r₀ =>
    have hopen := (Reference.of_fixed (r := r₀) (by simpa [EntityReference.relabel] using hfixed)).1
    obtain rfl : resolveBy (findDomain (aliasedModel D)) r₀ = r := EntityReference.domain.inj he
    rw [resolveBy_open _ hopen, resolveBy_text]
    exact congrFun (findDomain_aliasedModel D) r₀.text

/-- What a domain of the linked model lists under a word is looked up among the domains of the
drafts. -/
theorem target_of_asDomain (hD : D.AsLoaded) {d : Domain} (hd : d ∈ (D.link rules).model.domains)
    {x : String × DomainReference} (hx : x ∈ d.asDomains) : x.2.target = findDomain D x.2.text := by
  rw [domains_link hD, List.mem_map] at hd
  obtain ⟨d₀, hd₀, rfl⟩ := hd
  obtain ⟨⟨word, r⟩, hr, rfl⟩ := List.mem_map.mp hx
  obtain ⟨f, hf, hd₀⟩ := List.mem_flatMap.mp hd₀
  have hmem : EntityReference.domain r ∈ fileReferences f := by
    simp only [fileReferences, List.mem_append, List.mem_flatMap]
    exact Or.inl (Or.inl
      (Or.inl ⟨d₀, hd₀, List.mem_map_of_mem (f := fun x => EntityReference.domain x.2) hr⟩))
  have hopen := (Reference.of_fixed (r := r)
    (by simpa [EntityReference.relabel] using (hD.fresh f hf).references _ hmem)).1
  show (resolveBy (findDomain D) r).target = findDomain D (resolveBy (findDomain D) r).text
  rw [resolveBy_open _ hopen, resolveBy_text]

/-- **Without errors, domains are found by their names.** -/
theorem domainsFound_link (hD : D.AsLoaded)
    (hnone : ∀ d ∈ (D.link rules).problems, d.isError = false) :
    (D.link rules).model.DomainsFound where
  apart := by
    have hvalid := (nothing_reported hnone).2.2.2.2
    simp only [Validation.problems, List.append_eq_nil_iff] at hvalid
    have hapart : (D.domains.map (·.name.value)).Nodup := domainsApart_of_duplicates hD hvalid.1.1.1
    rw [Model.DomainsApart, domains_link hD, List.map_map]
    exact hapart
  property p hp r hr := by
    rw [findDomain_link hD]
    exact target_of_domain hD hp hr
  asDomain d hd x hx := by
    rw [findDomain_link hD]
    exact target_of_asDomain hD hd hx

theorem alike_resolvedDomain (find find' : String → Option DomainId) (d : Domain) :
    (resolvedDomain find d).Alike (resolvedDomain find' d) where
  name := rfl
  type _ := rfl
  generated := rfl
  words := by
    simp only [resolvedDomain, List.map_map]
    refine List.map_congr_left fun x _ => ?_
    simp only [Function.comp_apply, resolveBy_text]

theorem alike_of_draft (hD : D.AsLoaded) (hD' : D'.AsLoaded) {d : Domain}
    (hd : d ∈ (D.link rules).model.domains)
    (hdraft : ∀ f ∈ D.files, f.id = d.id.file → f ∈ D'.files) :
    ∃ d' ∈ (D'.link rules).model.domains, d.Alike d' := by
  rw [domains_link hD, List.mem_map] at hd
  obtain ⟨d₀, hd₀, rfl⟩ := hd
  obtain ⟨f, hf, hd₀⟩ := List.mem_flatMap.mp hd₀
  have hf' := hdraft f hf ((hD.numbered.domains f hf).file hd₀).symm
  refine ⟨resolvedDomain (findDomain D') d₀, ?_, alike_resolvedDomain _ _ d₀⟩
  rw [domains_link hD']
  exact List.mem_map_of_mem (List.mem_flatMap.mpr ⟨f, hf', hd₀⟩)

/-- **Models linked without errors from drafts that agree on a set of files**, which name nothing
outside of it, have the same part over it. -/
theorem alongside_link (hD : D.AsLoaded) (hD' : D'.AsLoaded) (hw : D.NamesWithin K)
    (hw' : D'.NamesWithin K) (hnone : ∀ d ∈ (D.link rules).problems, d.isError = false)
    (hnone' : ∀ d ∈ (D'.link rules).problems, d.isError = false) (he : D.part K = D'.part K) :
    Model.Alongside K rules (D.link rules).model (D'.link rules).model where
  part := part_link hD hD' hw hw' hnone hnone' he
  closed := closed_link hD hw
  closed' := closed_link hD' hw'
  sound := sound_link rules hD
  sound' := sound_link rules hD'
  whole := whole_of_no_errors hD hnone
  whole' := whole_of_no_errors hD' hnone'
  found := domainsFound_link hD hnone
  found' := domainsFound_link hD' hnone'

end EntityModel.Linking
