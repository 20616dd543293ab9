import EntityModel.Proofs.Linking.Warnings
import EntityModel.Proofs.Naming.Chains
import EntityModel.Proofs.Store.Diagnosed

/-!
# What generators read of a linked store

A link without errors leaves nothing missing (`Linking.whole_of_no_errors`), and so every property
of the store has a name, a leaf and a domain, as far as chains of properties are followed
(`Reachable.derived_or_chain`).  Two things yield nothing without an error: a chain that goes on
beyond the limit, and an alias that ends at a composition without a domain.
-/

namespace EntityModel

open Naming Linking

namespace Linking

variable {rules : NamingRules} {m : Model}

theorem target_of_resolved {α : Type} {r : Reference α} {entity : α → Entity}
    (h : ∃ e, r.target.map entity = some e ∧ e.Live m) :
    ∃ t, r.target = some t ∧ (entity t).Live m := by
  obtain ⟨e, he, hlive⟩ := h
  obtain ⟨t, ht, rfl⟩ := Option.map_eq_some_iff.mp he
  exact ⟨t, ht, hlive⟩

/-- An association that passes validation finds the key of its class. -/
theorem exists_key_of_valid (hm : m.Numbered) {p : Property} {a : AssociationProperty} {c : ClassId}
    (hk : p.kind = .association a) (hproperty : a.property = none)
    (hc : a.association.target = some c)
    (h : Validation.associationProblem m p = none) : ∃ q ∈ m.properties, m.keyOf a = some q.id := by
  have hsingle : (m.primaryKey c).length = 1 := by
    simpa [Validation.associationProblem, Property.association?, hk, hc, hproperty] using h
  obtain ⟨q, hq⟩ := List.length_eq_one_iff.mp hsingle
  have hkey := Model.singlePrimaryKey_iff.mpr hq
  refine ⟨q, hm.mem_of_classProperties (Model.mem_of_singlePrimaryKey hkey), ?_⟩
  simp [Model.keyOf, hproperty, hc, hkey]

/-- **A link without errors leaves nothing missing.** -/
theorem whole_of_no_errors (h : m.AsLoaded)
    (hnone : ∀ d ∈ (m.link rules).problems, d.isError = false) :
    (m.link rules).model.Whole := by
  have hsound := sound_link rules h
  have hnumbered := hsound.numbered
  obtain ⟨-, -, -, hwords, hvalidated⟩ := nothing_reported hnone
  have hvalid : ∀ p ∈ (m.link rules).model.properties,
      Validation.associationProblem (m.link rules).model p = none := by
    simp only [Validation.problems, List.append_eq_nil_iff] at hvalidated
    exact List.filterMap_eq_nil_iff.mp hvalidated.1.2
  have held : ∀ p ∈ (m.link rules).model.properties, ∀ x ∈ p.heldReferences,
      x.Resolved (m.link rules).model := by
    intro p hp x hx
    obtain ⟨f, hf, hp⟩ := Model.exists_file_of_mem hp
    refine resolved_of_no_errors h hnone hf ?_
    exact List.mem_append_right _ (List.mem_flatMap.mpr ⟨p, hp, hx⟩)
  have hassociated : ∀ p ∈ (m.link rules).model.properties, ∀ a, p.kind = .association a →
      ∃ c ∈ (m.link rules).model.classes, a.association.target = some c.id := by
    intro p hp a hk
    have hx := held p hp _ (by simp only [Property.heldReferences, hk]; exact List.mem_cons_self)
    obtain ⟨_, ht, c, hc, rfl⟩ := target_of_resolved hx
    exact ⟨c, hc, ht⟩
  refine ⟨hnumbered, fun p hp hends => ?_, hassociated, fun p hp r hk => ?_,
    fun p hp c hk r hc => ?_, fun d hd x hx => ?_, List.filterMap_eq_nil_iff.mp hwords⟩
  · cases hk : p.kind with
    | regular | composition => rw [Model.endsChain, hk] at hends; exact absurd hends (by simp)
    | propertyAlias a =>
      cases htarget : a.property.bind Reference.target with
      | none =>
        have hclosed := closed_of_no_errors h hnone hp
        rw [isOpenAlias_iff.mpr ⟨a, hk, htarget⟩] at hclosed
        exact absurd hclosed (by simp)
      | some t =>
        obtain ⟨r, hr, ht⟩ := Option.bind_eq_some_iff.mp htarget
        have hlookup : p.kind.lookup? = some (a.cls, r) := by simp [hk, PropertyKind.lookup?, hr]
        obtain ⟨C, -, -, hgoes⟩ := hsound.grounded p hp _ _ hlookup t ht
        obtain ⟨q, hq, rfl, -⟩ := hgoes
        exact ⟨q, hnumbered.mem_of_classProperties hq, by rw [Model.nextOnChain, hk]; exact htarget⟩
    | association a =>
      obtain ⟨c, -, hc⟩ := hassociated p hp a hk
      cases hproperty : a.property with
      | none =>
        obtain ⟨q, hq, hkey⟩ := exists_key_of_valid hnumbered hk hproperty hc (hvalid p hp)
        exact ⟨q, hq, by rw [Model.nextOnChain, hk]; exact hkey⟩
      | some r =>
        have hx := held p hp _ (by
          simp only [Property.heldReferences, hk, hproperty]
          exact List.mem_cons_of_mem _ List.mem_cons_self)
        obtain ⟨_, ht, q, hq, rfl⟩ := target_of_resolved hx
        exact ⟨q, hq, by simp [Model.nextOnChain, hk, Model.keyOf, hproperty, ht]⟩
  · have hx := held p hp _ (by simp only [Property.heldReferences, hk]; exact List.mem_cons_self)
    obtain ⟨_, ht, d, hd, rfl⟩ := target_of_resolved hx
    exact ⟨d, hd, ht⟩
  · have hx := held p hp _ (by
      simp only [Property.heldReferences, hk, hc]
      exact List.mem_cons_of_mem _ List.mem_cons_self)
    obtain ⟨_, ht, d, hd, rfl⟩ := target_of_resolved hx
    exact ⟨d, hd, ht⟩
  · obtain ⟨f, hf, hd⟩ := List.mem_flatMap.mp hd
    have hmem : x.2.held .asDomain .domain ∈ f.heldReferences := by
      simp only [ModelFile.heldReferences, List.mem_append, List.mem_flatMap]
      exact Or.inl (Or.inl (Or.inr ⟨d, hd, List.mem_map_of_mem hx⟩))
    obtain ⟨_, ht, d', hd', rfl⟩ := target_of_resolved (resolved_of_no_errors h hnone hf hmem)
    exact ⟨d', hd', ht⟩

end Linking

namespace Store

variable {s : Store}

/-- **After a link without errors every property has a name, and every field a leaf and a domain**,
unless the chain that they are found along goes on beyond the limit, or the leaf is a composition
without a domain. -/
theorem Reachable.derived_or_chain (h : s.Reachable) (hnone : s.link.2.errors = 0) :
    ∀ p ∈ s.link.1.model.properties,
      ((s.link.1.model.propertyName? s.naming p.id).isSome ∨
        s.link.1.model.LeadsOn s.link.1.model.nameStep (chainLimit + 1) p.id) ∧
      (p.isField = true →
        ((s.link.1.model.leafProperty p.id).isSome ∨
          s.link.1.model.LeadsOn s.link.1.model.nextOnChain (chainLimit + 1) p.id) ∧
        ((s.link.1.model.effectiveDomain p.id).isSome ∨
          s.link.1.model.LeadsOn s.link.1.model.nextOnChain (chainLimit + 1) p.id ∨
          ∃ q ∈ s.link.1.model.properties, s.link.1.model.leafProperty p.id = some q.id ∧
          q.IsBare)) := by
  rw [link_model]
  have hwhole := whole_of_no_errors h.drafted.asLoaded (no_errors_of_link hnone)
  intro p hp
  refine ⟨hwhole.name_or_chain (chainLimit + 1) p hp, fun _ => ?_⟩
  rcases hwhole.leaf_or_chain (chainLimit + 1) p hp with ⟨q, hq, -, hleaf⟩ | hchain
  · refine ⟨Or.inl (Option.isSome_of_mem hleaf), ?_⟩
    rcases hwhole.effective_or_bare (chainLimit + 1) le_rfl p hp q hq hleaf with ⟨d, -, hd⟩ | hbare
    · exact Or.inl (Option.isSome_of_mem hd)
    · exact Or.inr (Or.inr ⟨q, hq, hleaf, hbare⟩)
  · exact ⟨Or.inr hchain, Or.inr (Or.inl hchain)⟩

/-- A store with a class that is its own key, and an alias of a composition without a domain. -/
def ownKey : Store :=
  loadAll {} [("A",
    "module: M\n---\nclass:\n name: K\n comment: c\n properties:\n - association: K\n   primaryKey: true\n"
      ++ " - composition: K\n   name: Z\n - alias: {class: K, property: Z}\n   name: Y")]

theorem ownKey_reachable : ownKey.Reachable := reachable_loadAll {} _

/-- Without an error the key of the class has neither a name nor a leaf nor a domain, and the alias,
which has a leaf, has no domain. -/
theorem ownKey_linked :
    ownKey.link.2.errors = 0 ∧
      (∃ p ∈ ownKey.link.1.model.properties, p.isField = true ∧
        ownKey.link.1.model.propertyName? ownKey.naming p.id = none ∧
        ownKey.link.1.model.leafProperty p.id = none ∧
        ownKey.link.1.model.effectiveDomain p.id = none) ∧
      ∃ p ∈ ownKey.link.1.model.properties, p.isField = true ∧
        (ownKey.link.1.model.leafProperty p.id).isSome ∧
        ownKey.link.1.model.effectiveDomain p.id = none := by
  have hspelled : ownKey = _ :=
    loadAll_eq_foldl (.cons (toList_append_eq String.toList_ofList String.toList_ofList) .nil)
  rw [hspelled]
  decide +kernel

/-- There linking finds no error, and so whatever the properties have no name or domain for is
excused. -/
theorem derived_or_chain_in_ownKey :
    ownKey.link.2.errors = 0 ∧ ∀ p ∈ ownKey.link.1.model.properties,
      (ownKey.link.1.model.propertyName? ownKey.naming p.id).isSome ∨
      ownKey.link.1.model.LeadsOn ownKey.link.1.model.nameStep (chainLimit + 1) p.id :=
  ⟨ownKey_linked.1, fun p hp =>
    (Reachable.derived_or_chain ownKey_reachable ownKey_linked.1 p hp).1⟩

/-- **A model without errors has properties without a name and without a domain.** -/
theorem gaps_in_ownKey :
    ownKey.Reachable ∧ ownKey.link.2.errors = 0 ∧
      (∃ p ∈ ownKey.link.1.model.properties, p.isField = true ∧
        ownKey.link.1.model.propertyName? ownKey.naming p.id = none ∧
        ownKey.link.1.model.leafProperty p.id = none ∧
        ownKey.link.1.model.effectiveDomain p.id = none) ∧
      ∃ p ∈ ownKey.link.1.model.properties, p.isField = true ∧
        (ownKey.link.1.model.leafProperty p.id).isSome ∧
        ownKey.link.1.model.effectiveDomain p.id = none :=
  ⟨ownKey_reachable, ownKey_linked⟩

end Store

end EntityModel
