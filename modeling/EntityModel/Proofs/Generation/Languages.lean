import EntityModel.Proofs.Generation.Selections
import EntityModel.Proofs.Locality.Domains
import EntityModel.Proofs.Naming.ChainDomains

/-!
# The language of a generator

Before anything is rendered, a generator looks whether the domains that it needs are written in its
language.  It goes through the properties that the selected files declare, and for these the check
is exact: the domain of each, and the one named at the end of its chain, have to be there in the
language.  A class has the properties of its decorators too, wherever these are declared.  A
decorator of a file that is not selected is not gone through, so a class may come to be rendered
with a property whose domain is missing in the language; there is no other way
(`Store.Reachable.languages_checked`).
-/

namespace EntityModel

open Linking Naming

namespace Model

variable {m : Model} {language : String}

/-! ### Domains that are named -/

structure DomainsThere (m : Model) : Prop where
  named : ∀ p ∈ m.properties, ∀ r, EntityReference.domain r ∈ propertyReferences p →
    ∀ id, r.target = some id → (Entity.domain id).Live m
  listed : ∀ d ∈ m.domains, ∀ x ∈ d.asDomains, ∀ id, x.2.target = some id →
    (Entity.domain id).Live m

theorem ownDomain_eq (m : Model) (id : PropertyId) :
    m.ownDomain id = (m.property? id).bind fun p => p.domain?.bind Reference.target := by
  unfold ownDomain
  congr 1
  funext p
  unfold Property.domain?
  cases p.kind <;> rfl

theorem DomainsThere.ownDomain (h : m.DomainsThere) (hm : m.Numbered) {leaf : PropertyId}
    {id : DomainId} (hid : m.ownDomain leaf = some id) : (Entity.domain id).Live m := by
  rw [ownDomain_eq] at hid
  obtain ⟨p, hp, hid⟩ := Option.bind_eq_some_iff.mp hid
  obtain ⟨r, hr, htarget⟩ := Option.bind_eq_some_iff.mp hid
  exact h.named p (mem_of_property? hm hp) r (mem_propertyReferences_of_domain? hr) id htarget

theorem DomainsThere.exchanged (h : m.DomainsThere) (hm : m.Numbered) {base : Option DomainId}
    (hbase : ∀ id, base = some id → (Entity.domain id).Live m) :
    ∀ {words : List String} {id : DomainId}, m.exchanged words base = some id →
    (Entity.domain id).Live m
  | [], id, hid => hbase id hid
  | word :: words, id, hid => by
    obtain ⟨before, -, hid⟩ := Option.bind_eq_some_iff.mp hid
    obtain ⟨d, hd, hid⟩ := Option.bind_eq_some_iff.mp hid
    obtain ⟨r, hr, htarget⟩ := Option.bind_eq_some_iff.mp hid
    exact h.listed d (hm.domain?_iff.mp hd).1 (word, r) (mem_of_lookup hr) id htarget

theorem DomainsThere.effectiveDomain (h : m.DomainsThere) (hm : m.Numbered) {p : PropertyId}
    {id : DomainId} (hid : m.effectiveDomain p = some id) : (Entity.domain id).Live m := by
  cases hleaf : m.leafProperty p with
  | none => exact absurd (hid.symm.trans (effectiveWithin_eq_none hleaf)) (by simp)
  | some leaf =>
    obtain ⟨rest, hrest, hends, hlength⟩ := exists_leadsTo_of_leafWithin hleaf
    have heffective := hrest.effectiveWithin hends chainLimit (Nat.le_of_lt_succ hlength)
    exact h.exchanged hm (fun _ => h.ownDomain hm) (heffective.symm.trans hid)

/-! ### Properties of a class -/

/-- A class has its own properties and those of its decorators. -/
theorem mem_classProperties (hm : m.Numbered) {c : Class} (hc : c ∈ m.classes) {p : Property} :
    p ∈ m.classProperties c.id ↔ p ∈ c.properties ∨
      ∃ usage ∈ c.decorators, ∃ d ∈ m.decorators, usage.decorator.target = some d.id ∧
      p ∈ d.properties := by
  rw [classProperties, hm.cls?_iff.mpr ⟨hc, rfl⟩]
  simp only [propertiesOf, List.mem_append, List.mem_flatMap]
  refine or_congr_right (exists_congr fun usage => and_congr_right fun _ => ⟨fun hp => ?_, ?_⟩)
  · cases hfound : usage.decorator.target.bind m.decorator? with
    | none => simp [hfound] at hp
    | some d =>
      rw [hfound] at hp
      obtain ⟨id, htarget, hd⟩ := Option.bind_eq_some_iff.mp hfound
      obtain ⟨hmem, rfl⟩ := hm.decorator?_iff.mp hd
      exact ⟨d, hmem, htarget, hp⟩
  · rintro ⟨d, hd, htarget, hp⟩
    rw [htarget, Option.bind_some, hm.decorator?_iff.mpr ⟨hd, rfl⟩]
    exact hp

/-- The properties of a decorator are among those that its file declares. -/
theorem Numbered.mem_properties_of_decorator (hm : m.Numbered) {f : ModelFile} (hf : f ∈ m.files)
    {d : Decorator}
    (hd : d ∈ m.decorators) (hid : f.id = d.id.file) {p : Property} (hp : p ∈ d.properties) :
    p ∈ f.properties := by
  obtain ⟨f', hf', hd⟩ := List.mem_flatMap.mp hd
  obtain rfl : f' = f :=
    List.inj_on_of_nodup_map hm.files hf' hf (((hm.decorators f' hf').file hd).symm.trans hid.symm)
  exact List.mem_append_left _ (List.mem_append_right _ (List.mem_flatMap.mpr ⟨d, hd, hp⟩))

/-! ### Properties in a language -/

def Implements (m : Model) (language : String) (id : DomainId) : Prop :=
  ∃ d, m.domain? id = some d ∧ (d.implementations.lookup language).isSome = true

/-- The domain of the property, if it has one, and the one that is named at the end of its chain are
written in the language. -/
structure WrittenIn (m : Model) (language : String) (p : PropertyId) : Prop where
  effective : ∀ id, m.effectiveDomain p = some id → m.Implements language id
  leaf : ∀ leaf, m.leafProperty p = some leaf → ∀ id, m.ownDomain leaf = some id →
    m.Implements language id

theorem baseDomain_of_leafProperty {p leaf : PropertyId} (h : m.leafProperty p = some leaf) :
    m.baseDomain leaf = m.ownDomain leaf := by
  obtain ⟨-, -, ⟨q, hq, hends⟩, -⟩ := exists_leadsTo_of_leafWithin h
  exact (congrArg (Option.bind · _) hq).trans (baseFrom_of_ends hq hends _)

theorem mem_domainsOf {p : Property} {d : Domain} : d ∈ Generator.domainsOf m p ↔
    (∃ id, m.effectiveDomain p.id = some id ∧ m.domain? id = some d) ∨
      ∃ leaf, m.leafProperty p.id = some leaf ∧ ∃ id, m.ownDomain leaf = some id ∧
      m.domain? id = some d := by
  rw [Generator.domainsOf, List.mem_filterMap]
  simp only [List.mem_cons, List.not_mem_nil, or_false, exists_eq_or_imp, exists_eq_left,
    Option.bind_eq_some_iff]
  refine or_congr_right ⟨?_, ?_⟩
  · rintro ⟨id, ⟨leaf, hleaf, hid⟩, hd⟩
    exact ⟨leaf, hleaf, id, baseDomain_of_leafProperty hleaf ▸ hid, hd⟩
  · rintro ⟨leaf, hleaf, id, hid, hd⟩
    exact ⟨id, ⟨leaf, hleaf, baseDomain_of_leafProperty hleaf ▸ hid⟩, hd⟩

/-- **The domains that are looked for are those that the property is to be written with.** -/
theorem writtenIn_iff (h : m.DomainsThere) (hm : m.Numbered) {p : Property} :
    m.WrittenIn language p.id ↔
      ∀ d ∈ Generator.domainsOf m p, (d.implementations.lookup language).isSome = true := by
  have hlive : ∀ id, (Entity.domain id).Live m → ∃ d, m.domain? id = some d :=
    fun id ⟨d, hd, hid⟩ =>
    ⟨d, hm.domain?_iff.mpr ⟨hd, hid⟩⟩
  constructor
  · intro hwritten d hd
    rcases mem_domainsOf.mp hd with ⟨id, hid, hfound⟩ | ⟨leaf, hleaf, id, hid, hfound⟩
    · obtain ⟨d', hd', himplemented⟩ := hwritten.effective id hid
      exact Option.some.inj (hfound.symm.trans hd') ▸ himplemented
    · obtain ⟨d', hd', himplemented⟩ := hwritten.leaf leaf hleaf id hid
      exact Option.some.inj (hfound.symm.trans hd') ▸ himplemented
  · intro hall
    refine ⟨fun id hid => ?_, fun leaf hleaf id hid => ?_⟩
    · obtain ⟨d, hd⟩ := hlive id (h.effectiveDomain hm hid)
      exact ⟨d, hd, hall d (mem_domainsOf.mpr (Or.inl ⟨id, hid, hd⟩))⟩
    · obtain ⟨d, hd⟩ := hlive id (h.ownDomain hm hid)
      exact ⟨d, hd, hall d (mem_domainsOf.mpr (Or.inr ⟨leaf, hleaf, id, hid, hd⟩))⟩

end Model

namespace Linking

variable {rules : NamingRules} {D : Model}

/-- Linking resolves names of domains to domains that are there. -/
theorem domainsThere_link (hD : D.AsLoaded) : (D.link rules).model.DomainsThere := by
  have hfind : findDomain (D.link rules).model = findDomain D := findDomain_link hD
  refine ⟨fun p hp r hr id hid => ?_, fun d hd x hx id hid => ?_⟩
  · rw [target_of_domain hD hp hr, ← hfind] at hid
    exact findDomain_live hid
  · rw [target_of_asDomain hD hd hx, ← hfind] at hid
    exact findDomain_live hid

end Linking

namespace Generator

variable {g : Generator} {m : Model} {language : String}

theorem checkLanguage_eq_ok_iff (hlanguage : g.language = some language) {files : List ModelFile} :
    g.checkLanguage m files = .ok () ↔ missingDomains m language files = [] := by
  simp only [checkLanguage, hlanguage]
  cases missingDomains m language files with
  | nil => exact iff_of_true rfl rfl
  | cons d ds => exact iff_of_false (by simp) (by simp)

end Generator

namespace Store

open Generator

variable {s : Store} {g : Generator} {language : String}

theorem Reachable.numbered_model (h : s.Reachable) : s.model.Numbered :=
  h.of_linked (P := Model.Numbered)
    (Model.numbered_iff.mpr ⟨List.nodup_nil, fun _ hf => absurd hf List.not_mem_nil⟩) fun _ hs =>
      hs.numbered_link

theorem Reachable.domainsThere (h : s.Reachable) : s.model.DomainsThere :=
  h.of_linked (P := Model.DomainsThere) ⟨fun _ hp => absurd hp List.not_mem_nil,
      fun _ hd => absurd hd List.not_mem_nil⟩ fun s hs => by
    rw [link_model]
    exact domainsThere_link hs.drafted.asLoaded

/-- **The language is checked for just what the selected files declare.**  The check passes exactly
if all the properties declared in them are written in the language.  So where a run has outputs, the
properties of every class of a selected file are written in it, and what its endpoints take and
return, except for what a class has from a decorator of a file that is not selected. -/
theorem Reachable.languages_checked (h : s.Reachable) (hlanguage : g.language = some language)
    (ids : List FileId) :
    (g.checkLanguage s.model (g.selected s ids) = .ok () ↔
      ∀ f ∈ g.selected s ids, ∀ p ∈ f.properties, s.model.WrittenIn language p.id) ∧
    ∀ outputs, g.run s ids = .ok outputs → ∀ f ∈ g.selected s ids,
      (∀ c ∈ f.classes, ∀ p ∈ s.model.classProperties c.id, s.model.WrittenIn language p.id ∨
        ∃ usage ∈ c.decorators, ∃ d ∈ s.model.decorators, usage.decorator.target = some d.id ∧
        p ∈ d.properties ∧
          ∀ f' ∈ g.selected s ids, f'.id ≠ d.id.file) ∧
      ∀ e ∈ f.endpoints, ∀ p ∈ e.params ++ e.returns.toList, s.model.WrittenIn language p.id := by
  have hchecked : g.checkLanguage s.model (g.selected s ids) = .ok () ↔
      ∀ f ∈ g.selected s ids, ∀ p ∈ f.properties, s.model.WrittenIn language p.id := by
    rw [checkLanguage_eq_ok_iff hlanguage, missingDomains_eq_nil_iff]
    exact forall₂_congr fun f _ => forall₂_congr fun p _ =>
      (Model.writtenIn_iff h.domainsThere h.numbered_model).symm
  refine ⟨hchecked, fun outputs hrun f hf => ?_⟩
  have hwritten := hchecked.mp (run_eq_ok_iff.mp hrun).1
  have hmem : f ∈ s.model.files := chosen_subset s ids (List.mem_filter.mp hf).1
  constructor
  · intro c hc p hp
    rcases (Model.mem_classProperties h.numbered_model (List.mem_flatMap.mpr ⟨f, hmem, hc⟩)).mp hp
      with hown | ⟨usage, husage, d, hd, htarget, hp⟩
    · refine Or.inl (hwritten f hf p ?_)
      exact List.mem_append_left _ (List.mem_append_left _ (List.mem_flatMap.mpr ⟨c, hc, hown⟩))
    · by_cases hselected : ∃ f' ∈ g.selected s ids, f'.id = d.id.file
      · obtain ⟨f', hf', hid⟩ := hselected
        have hmem' : f' ∈ s.model.files := chosen_subset s ids (List.mem_filter.mp hf').1
        exact Or.inl (hwritten f' hf' p
          (h.numbered_model.mem_properties_of_decorator hmem' hd hid hp))
      · exact Or.inr ⟨usage, husage, d, hd, htarget, hp, fun f' hf' hid => hselected ⟨f', hf', hid⟩⟩
  · intro e he p hp
    exact hwritten f hf p (List.mem_append_right _ (List.mem_flatMap.mpr ⟨e, he, hp⟩))

/-- A decorator whose property has a domain that is not written in any language, in a file without
tags, and a tagged file whose class has it. -/
def decoratedFromAfar : Store :=
  loadAll {} [("A", "module: M\n---\ndomain:\n name: D\n label: d\n---\ndecorator:\n name: Z\n"
      ++ " description: c\n properties:\n - name: F\n   comment: c\n   domain: D"),
    ("B", "module: N\ntags: [t]\nuses: [A]\n---\ndomain:\n name: E\n label: e\n ts:\n  type: s\n"
      ++ "---\nclass:\n name: K\n comment: c\n decorators: [Z]\n"
      ++ " properties:\n - name: C\n   comment: c\n   domain: E")]

def inTypeScript : Generator where
  name := "inTypeScript"
  tags := ["t"]
  language := some "ts"
  outputPath _ f _ := some ⟨f.name ++ ".ts"⟩
  render _ f _ := .ok f.name

/-- What the store and the run over it come to, evaluated at once. -/
theorem decoratedFromAfar_run : decoratedFromAfar.link.2.errors = 0 ∧
    (inTypeScript.run decoratedFromAfar.link.1 []).toOption = some [⟨⟨"B.ts"⟩, "B", ⟨1⟩, "t"⟩] ∧
    ((inTypeScript.selected decoratedFromAfar.link.1 []).any fun f => f.classes.any fun c =>
      (decoratedFromAfar.link.1.model.classProperties c.id).any fun p =>
        decoratedFromAfar.link.1.model.effectiveDomain p.id == some ⟨⟨0⟩, 0⟩) = true ∧
    (decoratedFromAfar.link.1.model.domain? ⟨⟨0⟩, 0⟩).all
      (fun d => (d.implementations.lookup "ts").isNone) = true := by
  have hspelled : decoratedFromAfar = _ :=
    loadAll_eq_foldl
      (.cons (toList_append_eq String.toList_ofList String.toList_ofList)
        (.cons (toList_append_eq (toList_append_eq String.toList_ofList String.toList_ofList)
          String.toList_ofList) .nil))
  rw [hspelled]
  decide +kernel

/-- What the class of the tagged file declares is written in the language; what it has from the
decorator is not, and the run has outputs all the same. -/
theorem languages_checked_in_decoratedFromAfar :
    decoratedFromAfar.link.2.errors = 0 ∧
    ∃ outputs, inTypeScript.run decoratedFromAfar.link.1 [] = .ok outputs ∧
      ∃ f ∈ inTypeScript.selected decoratedFromAfar.link.1 [], ∃ c ∈ f.classes,
        (∀ p ∈ c.properties, decoratedFromAfar.link.1.model.WrittenIn "ts" p.id) ∧
        ∃ p ∈ decoratedFromAfar.link.1.model.classProperties c.id,
          ¬ decoratedFromAfar.link.1.model.WrittenIn "ts" p.id ∧
          ∃ usage ∈ c.decorators, ∃ d ∈ decoratedFromAfar.link.1.model.decorators,
            usage.decorator.target = some d.id ∧ p ∈ d.properties ∧
            ∀ f' ∈ inTypeScript.selected decoratedFromAfar.link.1 [], f'.id ≠ d.id.file := by
  have hreach : decoratedFromAfar.link.1.Reachable := .link (reachable_loadAll {} _)
  obtain ⟨herrors, hrun, hfound, hlacking⟩ := decoratedFromAfar_run
  have hrun := of_toOption hrun
  obtain ⟨f, hf, hclass⟩ := List.any_eq_true.mp hfound
  obtain ⟨c, hc, hproperty⟩ := List.any_eq_true.mp hclass
  obtain ⟨p, hp, hdomain⟩ := List.any_eq_true.mp hproperty
  have hnot : ¬ decoratedFromAfar.link.1.model.WrittenIn "ts" p.id := fun hwritten => by
    obtain ⟨d, hd, himplemented⟩ := hwritten.effective _ (beq_iff_eq.mp hdomain)
    rw [hd, Option.all_some] at hlacking
    rw [Option.isNone_iff_eq_none.mp hlacking] at himplemented
    exact absurd himplemented (by simp)
  obtain ⟨hiff, hall⟩ := Reachable.languages_checked hreach (g := inTypeScript) rfl []
  refine ⟨herrors, _, hrun, f, hf, c, hc, fun q hq => ?_, p, hp, hnot, ?_⟩
  · refine hiff.mp (run_eq_ok_iff.mp hrun).1 f hf q ?_
    exact List.mem_append_left _ (List.mem_append_left _ (List.mem_flatMap.mpr ⟨c, hc, hq⟩))
  · exact ((hall _ hrun f hf).1 c hc p hp).resolve_left hnot

end Store

end EntityModel
