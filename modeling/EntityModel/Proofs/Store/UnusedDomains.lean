import EntityModel.Proofs.Store.Scoping
import EntityModel.Proofs.Store.UnusedImports

/-!
# Unused domains in a linked store

While names are looked up, the domains that are found are marked as used, also where a property
exchanges its domain by a word.  The marks say just what the linked model says: a domain is marked
if and only if some reference is resolved to it (`isDomainUsed_link`), for the exchange follows a
word of a domain, and the reference behind the word is resolved to what the name of the exchanged
domain finds.  So each domain that no reference is resolved to is reported once, in the order of the
declarations (`Reachable.unused_domains_exact`), and of several domains with one name only the first
can be anything else.
-/

namespace EntityModel

open Linking

/-- A reference to a domain in the files of the model: what a property of a class, a decorator or an
endpoint has for its type or around its composition, or what a domain lists under a word. -/
inductive Model.NamesDomain (m : Model) : DomainReference → Prop
  | ofProperty {p : Property} {r : DomainReference} : p ∈ m.properties → p.domain? = some r →
    m.NamesDomain r
  | ofWord {d : Domain} {x : String × DomainReference} : d ∈ m.domains → x ∈ d.asDomains →
    m.NamesDomain x.2

/-- Some reference is resolved to the domain. -/
def Model.PointsTo (m : Model) (id : DomainId) : Prop := ∃ r, m.NamesDomain r ∧ r.target = some id

def Model.unusedDomains (m : Model) : List Domain := m.domains.filter fun d => !isDomainUsed m d.id

def Domain.unusedReport (d : Domain) : Diagnostic :=
  { problem := .unusedDomain d.name.value, location := d.name.location }

/-- Of such reports a file keeps those of its own domains, unless they are silenced. -/
theorem kept_unusedReports (suppressed : List DiagnosticKind) (id : FileId) {ds : List Domain}
    (hfile : ∀ d ∈ ds, d.unusedReport.file = d.id.file) :
    ((ds.map Domain.unusedReport).filter fun d => !Diagnostics.isSuppressed suppressed d).filter
      (·.file == id)
      = if suppressed.contains .unusedDomain then []
        else (ds.filter (·.id.file == id)).map Domain.unusedReport := by
  have hsuppressed : (fun d => !Diagnostics.isSuppressed suppressed d) ∘ Domain.unusedReport
      = fun _ => !suppressed.contains .unusedDomain := rfl
  have hhere : ∀ d ∈ ds,
      ((fun d : Diagnostic => d.file == id) ∘ Domain.unusedReport) d = (d.id.file == id) :=
    fun d hd => by rw [Function.comp_apply, hfile d hd]
  rw [List.filter_comm, List.filter_map, List.filter_congr hhere, List.filter_map, hsuppressed]
  cases suppressed.contains .unusedDomain <;> simp

theorem domain?_of_mem_propertyReferences {p : Property} {r : DomainReference}
    (h : EntityReference.domain r ∈ propertyReferences p) : p.domain? = some r := by
  unfold propertyReferences at h
  unfold Property.domain?
  cases hk : p.kind <;> simp_all

namespace Model

variable {m : Model}

theorem mem_unusedDomains {d : Domain} :
    d ∈ m.unusedDomains ↔ d ∈ m.domains ∧ isDomainUsed m d.id = false := by
  rw [unusedDomains, List.mem_filter, Bool.not_eq_true']

/-- The references to domains are those among the references of the files. -/
theorem namesDomain_iff {r : DomainReference} :
    m.NamesDomain r ↔ ∃ f ∈ m.files, EntityReference.domain r ∈ fileReferences f := by
  constructor
  · intro h
    cases h with
    | ofProperty hp hr =>
      obtain ⟨f, hf, hp⟩ := exists_file_of_mem hp
      exact ⟨f, hf, mem_fileReferences hp (mem_propertyReferences_of_domain? hr)⟩
    | @ofWord d x hd hx =>
      obtain ⟨f, hf, hd⟩ := List.mem_flatMap.mp hd
      refine ⟨f, hf, ?_⟩
      simp only [fileReferences, List.mem_append, List.mem_flatMap]
      exact Or.inl (Or.inl
        (Or.inl ⟨d, hd, List.mem_map_of_mem (f := fun x => EntityReference.domain x.2) hx⟩))
  · rintro ⟨f, hf, hr⟩
    rcases mem_fileReferences_iff.mp hr with hr | ⟨p, hp, hr⟩
    · -- without properties, only words of domains are followed by references to domains
      simp only [fileReferences, ModelFile.frame, List.mem_append, List.mem_flatMap,
        List.mem_map] at hr
      rcases hr with ((⟨d, hd, x, hx, he⟩ | ⟨_, ⟨d, -, rfl⟩, p, hp, -⟩) | ⟨_, ⟨c, -, rfl⟩, hc⟩) |
        ⟨_, ⟨e, -, rfl⟩, p, hp, -⟩
      · rw [← EntityReference.domain.inj he]
        exact .ofWord (List.mem_flatMap.mpr ⟨f, hf, hd⟩) hx
      · cases hp
      · simp [classReferences, Class.frame] at hc
      · cases hp
    · exact .ofProperty (properties_of_mem hf hp) (domain?_of_mem_propertyReferences hr)

/-- A look-up by name finds a domain if and only if it is the first one of that name. -/
theorem findDomain_eq_some_iff (hm : m.Numbered) {before after : List Domain} {d : Domain}
    (hd : m.domains = before ++ d :: after) {name : String} :
    findDomain m name = some d.id ↔ d.name.value = name ∧ ∀ e ∈ before, e.name.value ≠ name := by
  have hmem : d ∈ m.domains := by
    rw [hd]
    exact List.mem_append_right _ List.mem_cons_self
  have hfind : m.domainNamed? name = (before.find? (·.name.value == name)).or
      ((d :: after).find? (·.name.value == name)) := by
    rw [domainNamed?, hd, List.find?_append]
  constructor
  · intro hfound
    have hname := name_of_findDomain hm hmem hfound
    refine ⟨hname, fun e he hname' => ?_⟩
    -- otherwise a domain further in front would be found, of another id
    obtain ⟨x, hx⟩ : ∃ x, before.find? (·.name.value == name) = some x :=
      Option.isSome_iff_exists.mp (List.find?_isSome.mpr ⟨e, he, by simpa using hname'⟩)
    rw [findDomain, hfind, hx, Option.some_or, Option.map_some] at hfound
    have hids : (m.domains.map (·.id)).Nodup := nodup_declared hm.files hm.domains
    rw [hd, List.map_append, List.map_cons] at hids
    have hin := List.mem_map_of_mem (f := (·.id)) (List.mem_of_find?_eq_some hx)
    rw [Option.some.inj hfound] at hin
    exact List.disjoint_of_nodup_append hids hin List.mem_cons_self
  · rintro ⟨hname, hfirst⟩
    have hnone : before.find? (·.name.value == name) = none :=
      List.find?_eq_none.mpr fun e he => by simpa using hfirst e he
    rw [findDomain, hfind, hnone, Option.none_or, List.find?_cons, hname, beq_self_eq_true]
    rfl

/-- **The domains that look-ups find are those that references are resolved to**, where every
reference is resolved to the first domain of its name. -/
theorem mem_usedDomains_iff (hm : m.Numbered)
    (hfound : ∀ r, m.NamesDomain r → r.target = findDomain m r.text)
    {id : DomainId} : id ∈ usedDomains m ↔ m.PointsTo id := by
  rw [usedDomains]
  constructor
  · intro hid
    obtain ⟨name, hname, hlooked⟩ := List.mem_filterMap.mp hid
    rcases List.mem_append.mp hname with hname | hname
    · obtain ⟨x, hx, hname⟩ := List.mem_filterMap.mp hname
      obtain ⟨f, hf, hx⟩ := List.mem_flatMap.mp hx
      cases x with
      | cls | decorator => cases hname
      | domain r =>
        have hr : m.NamesDomain r := namesDomain_iff.mpr ⟨f, hf, hx⟩
        refine ⟨r, hr, ?_⟩
        rw [hfound r hr, Option.some.inj hname, hlooked]
    · -- the name of the exchanged domain finds what the reference behind the word is resolved to
      obtain ⟨p, -, hname⟩ := List.mem_filterMap.mp hname
      unfold exchangedDomainName at hname
      simp only [bind, Option.bind_eq_some_iff, pure, Option.some.injEq] at hname
      obtain ⟨word, -, base, -, d, hd, exchanged, ⟨r, hr, htarget⟩, e, he, rfl⟩ := hname
      obtain ⟨hd, -⟩ := hm.domain?_iff.mp hd
      obtain ⟨hmem, rfl⟩ := hm.domain?_iff.mp he
      have hnamed : m.NamesDomain r := .ofWord hd (mem_of_lookup hr)
      have htext : findDomain m r.text = some e.id := by rw [← hfound r hnamed, htarget]
      rw [name_of_findDomain hm hmem htext, htext] at hlooked
      exact ⟨r, hnamed, htarget.trans hlooked⟩
  · rintro ⟨r, hr, htarget⟩
    obtain ⟨f, hf, hx⟩ := namesDomain_iff.mp hr
    refine List.mem_filterMap.mpr ⟨r.text, List.mem_append_left _ ?_, ?_⟩
    · exact List.mem_filterMap.mpr ⟨.domain r, List.mem_flatMap.mpr ⟨f, hf, hx⟩, rfl⟩
    · rw [← hfound r hr, htarget]

end Model

namespace Linking

variable {rules : NamingRules} {m : Model}

/-- In the linked model every reference to a domain is resolved to the first domain of its name. -/
theorem target_of_namesDomain (h : m.AsLoaded) {r : DomainReference}
    (hr : (m.link rules).model.NamesDomain r) :
    r.target = findDomain (m.link rules).model r.text := by
  rw [findDomain_link h]
  cases hr with
  | ofProperty hp hr => exact target_of_domain h hp (mem_propertyReferences_of_domain? hr)
  | ofWord hd hx => exact target_of_asDomain h hd hx

/-- **Domains are marked as used as the references say.** -/
theorem isDomainUsed_link (h : m.AsLoaded) {id : DomainId} :
    isDomainUsed (m.link rules).model id = true ↔ (m.link rules).model.PointsTo id := by
  rw [isDomainUsed, List.contains_iff_mem]
  exact Model.mem_usedDomains_iff (sound_link rules h).numbered fun r hr =>
    target_of_namesDomain h hr

/-- What is resolved to a domain was written as its name in some draft, and whatever is written is
resolved. -/
theorem namesDomain_link_iff (h : m.AsLoaded) (hnone : ∀ f ∈ m.files, f.resolvedAliases = [])
    {name : String} :
    (∃ r, (m.link rules).model.NamesDomain r ∧ r.text = name) ↔
    ∃ r, m.NamesDomain r ∧ r.text = name := by
  constructor
  · rintro ⟨r, hr, rfl⟩
    obtain ⟨g, hg, hx⟩ := Model.namesDomain_iff.mp hr
    obtain ⟨f, hf, hid, -⟩ := exists_draft_of_link h hg
    obtain ⟨g', hg', hid', -, hfrom, -⟩ := exists_linked_of_draft rules h hf (hnone f hf)
    obtain rfl : g' = g :=
      List.inj_on_of_nodup_map (sound_link rules h).numbered.files hg' hg (hid'.trans hid.symm)
    obtain ⟨y, hy, he⟩ := hfrom _ hx
    cases y with
    | cls | decorator => cases he
    | domain r₀ =>
      obtain rfl := EntityReference.domain.inj he
      exact ⟨r₀, Model.namesDomain_iff.mpr ⟨f, hf, hy⟩, rfl⟩
  · rintro ⟨r, hr, rfl⟩
    obtain ⟨f, hf, hy⟩ := Model.namesDomain_iff.mp hr
    obtain ⟨g, hg, -, -, -, hkept⟩ := exists_linked_of_draft rules h hf (hnone f hf)
    rcases hkept _ hy with hx | ⟨p, -, a, -, -, he, -⟩
    · exact ⟨_, Model.namesDomain_iff.mpr ⟨g, hg, hx⟩, rfl⟩
    · cases he

/-- **Only the first domain of a name can be pointed to**, and it is if some draft names it. -/
theorem pointsTo_link_iff (h : m.AsLoaded) (hnone : ∀ f ∈ m.files, f.resolvedAliases = [])
    {before after : List Domain} {d : Domain}
    (hd : (m.link rules).model.domains = before ++ d :: after) :
    (m.link rules).model.PointsTo d.id ↔ (∀ e ∈ before, e.name.value ≠ d.name.value) ∧
      ∃ r, m.NamesDomain r ∧ r.text = d.name.value := by
  have hnumbered := (sound_link rules h).numbered
  constructor
  · rintro ⟨r, hr, htarget⟩
    rw [target_of_namesDomain h hr, Model.findDomain_eq_some_iff hnumbered hd] at htarget
    obtain ⟨hname, hfirst⟩ := htarget
    rw [hname]
    exact ⟨hfirst, (namesDomain_link_iff h hnone).mp ⟨r, hr, rfl⟩⟩
  · rintro ⟨hfirst, hnamed⟩
    have hlinked : ∃ r, (m.link rules).model.NamesDomain r ∧ r.text = d.name.value :=
      (namesDomain_link_iff h hnone).mpr hnamed
    obtain ⟨r, hr, hname⟩ := hlinked
    refine ⟨r, hr, ?_⟩
    rw [target_of_namesDomain h hr, hname]
    exact (Model.findDomain_eq_some_iff hnumbered hd).mpr ⟨rfl, hfirst⟩

/-! ### Reports -/

/-- Linking reports the domains that are not used, in the order of their declarations. -/
theorem filter_link_unusedDomain (rules : NamingRules) (h : m.AsLoaded) :
    (m.link rules).problems.filter (·.kind == .unusedDomain)
      = (m.link rules).model.unusedDomains.map Domain.unusedReport := by
  have hpart : (reportParts rules m).filter (·.1.contains .unusedDomain)
      = [([.unusedImport, .unusedDomain], unusedProblems (m.link rules).model)] := rfl
  rw [filter_link_kind rules h, hpart, List.flatMap_singleton, unusedProblems_eq,
    Model.unusedDomains, Model.domains, List.filter_flatMap, List.filter_flatMap, List.map_flatMap]
  refine List.flatMap_congr fun f _ => ?_
  have himports : OfKinds [.unusedImport] (f.uselessImports.map fun use =>
      { problem := .unusedImport use.text, location := use.location }) := .map fun _ _ => rfl
  have hdomains : OfKinds [.unusedDomain] ((f.domains.filter fun d =>
      !isDomainUsed (m.link rules).model d.id).map Domain.unusedReport) := .map fun _ _ => rfl
  rw [unusedIn, List.filter_append, himports.filter_eq_nil (by decide), List.nil_append]
  exact hdomains.filter_eq_self

theorem file_of_domain_link (h : m.AsLoaded) {d : Domain} (hd : d ∈ (m.link rules).model.domains) :
    d.unusedReport.file = d.id.file := by
  rw [domains_link h, List.mem_map] at hd
  obtain ⟨d₀, hd₀, rfl⟩ := hd
  obtain ⟨f, hf, hd₀⟩ := List.mem_flatMap.mp hd₀
  calc d₀.name.location.file
      = f.id := (congrArg (fun d : Domain => d.name.location.file)
        ((h.fresh f hf).domains d₀ hd₀)).symm
    _ = d₀.id.file := ((h.numbered.domains f hf).file hd₀).symm

end Linking

namespace Store

variable {s : Store}

/-- **Unused domains are reported exactly**: each domain of the linked model that no reference to a
domain, of a property of any class, decorator or endpoint or behind a word of any domain, is
resolved to, once and in the order of the declarations.  Each file keeps the reports of its own
domains, unless such reports are silenced.  A domain is pointed to if and only if it is the first of
its name and some draft names it. -/
theorem Reachable.unused_domains_exact (h : s.Reachable) :
    (∃ unused : List Domain, unused.Sublist s.link.1.model.domains ∧
      (∀ d ∈ s.link.1.model.domains, d ∈ unused ↔ ¬ s.link.1.model.PointsTo d.id) ∧
      s.linked.problems.filter (·.kind == .unusedDomain) = unused.map Domain.unusedReport ∧
      ∀ id, (s.link.1.problemsOf id).filter (·.kind == .unusedDomain)
        = if s.settings.suppressed.contains .unusedDomain then []
          else (unused.filter (·.id.file == id)).map Domain.unusedReport) ∧
    ∀ before d after, s.link.1.model.domains = before ++ d :: after →
      (s.link.1.model.PointsTo d.id ↔ (∀ e ∈ before, e.name.value ≠ d.name.value) ∧
        ∃ r, s.draftModel.NamesDomain r ∧ r.text = d.name.value) := by
  have hm := h.drafted.asLoaded
  have hreports := filter_link_unusedDomain s.naming hm
  rw [link_model]
  refine ⟨⟨(s.draftModel.link s.naming).model.unusedDomains, List.filter_sublist, fun d hd => ?_,
    ?_, fun id => ?_⟩, fun before d after hd => pointsTo_link_iff hm h.resolvedAliases_draft hd⟩
  · rw [Model.mem_unusedDomains, and_iff_right hd, ← isDomainUsed_link hm, Bool.not_eq_true]
  · rw [filter_linked_problems s (by decide), hreports]
  · rw [filter_problemsOf_link, filter_linked_problems s (by decide), hreports]
    exact kept_unusedReports _ id fun d hd =>
      file_of_domain_link hm (Model.mem_unusedDomains.mp hd).1

/-- A store with a domain declared twice, one that stands behind a word only, and one that a second
file uses. -/
def someUnused : Store :=
  loadAll {} [("A", "module: M\n---\ndomain: {name: D, label: d, asDomains: {list: E}}\n"
      ++ "---\ndomain: {name: D, label: again}\n---\ndomain: {name: E, label: e}\n"
      ++ "---\ndomain: {name: F, label: f}"),
    ("B", "module: M\n---\nclass:\n name: C\n comment: c\n properties:\n"
      ++ "  - {name: X, comment: x, domain: D}")]

/-- There the second domain of the name and the last one are reported, and to the others something
points. -/
theorem unused_domains_exact_in_someUnused :
    someUnused.Reachable ∧
    someUnused.link.1.model.domains.map (·.name.value) = ["D", "D", "E", "F"] ∧
      ∃ unused : List Domain, unused.Sublist someUnused.link.1.model.domains ∧
        unused.map (·.unusedReport.display)
          = ["[5,16] TMD9004 Le domaine 'D' n'est pas utilisé.",
            "[9,16] TMD9004 Le domaine 'F' n'est pas utilisé."] ∧
        (∀ d ∈ someUnused.link.1.model.domains, d ∈ unused ↔
          ¬ someUnused.link.1.model.PointsTo d.id) ∧
        (someUnused.link.1.problemsOf ⟨0⟩).filter (·.kind == .unusedDomain)
          = (unused.filter (·.id.file == ⟨0⟩)).map Domain.unusedReport := by
  have hreach : someUnused.Reachable := reachable_loadAll {} _
  have hrun : someUnused.link.1.model.domains.map (·.name.value) = ["D", "D", "E", "F"] ∧
      someUnused.settings.suppressed = [] ∧
      (someUnused.linked.problems.filter (·.kind == .unusedDomain)).map (·.display)
        = ["[5,16] TMD9004 Le domaine 'D' n'est pas utilisé.",
          "[9,16] TMD9004 Le domaine 'F' n'est pas utilisé."] := by
    have hspelled : someUnused = _ :=
      loadAll_eq_foldl
        (.cons (toList_append_eq (toList_append_eq String.toList_ofList String.toList_ofList)
          String.toList_ofList)
            (.cons (toList_append_eq String.toList_ofList String.toList_ofList) .nil))
    rw [hspelled]
    decide +kernel
  obtain ⟨⟨unused, hsub, hiff, hreports, hfiles⟩, -⟩ := Reachable.unused_domains_exact hreach
  refine ⟨hreach, hrun.1, unused, hsub, ?_, hiff, ?_⟩
  · rw [hreports, List.map_map] at hrun
    exact hrun.2.2
  · rw [hfiles, hrun.2.1]
    rfl

end Store

end EntityModel
