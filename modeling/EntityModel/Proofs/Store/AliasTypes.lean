import EntityModel.Proofs.Locality.Types
import EntityModel.Proofs.Store.Derived

/-!
# Types of aliases in a linked store

An alias without `as` has its type from the chain behind it, and so has what it points to: an
association or another alias, or the property at the end.  So both have the same type in every
language, and both are sent in the body or neither is (`typeName_of_alias`, `isBodyParam_of_alias`).

A composition is the one exception.  It has its type from the class that it holds, and always goes
into the body, but an alias looks at nothing of it except the domain around that class
(`typeName_of_alias_of_held`, `isBodyParam_of_alias_of_held`).
-/

namespace EntityModel

open Naming Linking

/-- What an alias without `as` points to. -/
def Property.plainTarget? (p : Property) : Option PropertyId :=
  p.alias?.bind fun a => if a.asDomain.isNone then a.property.bind Reference.target else none

theorem Property.plainTarget?_eq_some {p : Property} {target : PropertyId} :
    p.plainTarget? = some target ↔
    ∃ a, p.kind = .propertyAlias a ∧ a.asDomain = none ∧
    a.property.bind Reference.target = some target := by
  unfold plainTarget? alias?
  cases hk : p.kind with
  | propertyAlias a => simp
  | regular | association | composition => simp

namespace Model

variable {m : Model} {rules : NamingRules} {id target : PropertyId} {p q : Property}

theorem next_of_plainTarget (h : p.plainTarget? = some target) : m.nextOnChain p = some target := by
  obtain ⟨a, hk, -, ht⟩ := Property.plainTarget?_eq_some.mp h
  rw [nextOnChain, hk]
  exact ht

theorem applyAs_of_plainTarget (h : p.plainTarget? = some target) (base : DomainId) :
    m.applyAs p base = some base := by
  obtain ⟨a, hk, has, -⟩ := Property.plainTarget?_eq_some.mp h
  simp [applyAs, asName, hk, has]

theorem not_composition_of_plainTarget (h : p.plainTarget? = some target)
    (c : CompositionProperty) :
    p.kind ≠ .composition c := by
  obtain ⟨a, hk, -⟩ := Property.plainTarget?_eq_some.mp h
  simp [hk]

/-! ### Along the chain -/

/-- The chain behind an alias that ends within the limit ends so behind what the alias points to. -/
theorem leafWithin_target (hp : m.property? id = some p) (h : p.plainTarget? = some target)
    (hleaf : (m.leafProperty id).isSome) : (m.leafWithin chainLimit target).isSome := by
  have hnext := next_of_plainTarget (m := m) h
  rwa [leafProperty, leafWithin_succ hp, endsChain_of_next hnext, if_neg (by simp), hnext,
    Option.bind_some] at hleaf

theorem leafProperty_of_alias (hp : m.property? id = some p) (h : p.plainTarget? = some target)
    (hleaf : (m.leafProperty id).isSome) : m.leafProperty id = m.leafProperty target := by
  obtain ⟨leaf, htarget⟩ := Option.isSome_iff_exists.mp (leafWithin_target hp h hleaf)
  have hnext := next_of_plainTarget (m := m) h
  rw [leafProperty, leafWithin_succ hp, endsChain_of_next hnext, if_neg (by simp), hnext,
    Option.bind_some, htarget, leafProperty, leafWithin_mono (Nat.le_succ _) htarget]

theorem effectiveDomain_of_alias (hp : m.property? id = some p) (h : p.plainTarget? = some target)
    (hleaf : (m.leafProperty id).isSome) : m.effectiveDomain id = m.effectiveDomain target := by
  rw [effectiveDomain, effectiveWithin_succ hp, baseFrom_of_next (next_of_plainTarget h),
    effectiveDomain, effectiveWithin_of_leaf (Nat.le_succ _) (leafWithin_target hp h hleaf)]
  exact (Option.bind_congr fun base _ => applyAs_of_plainTarget h base).trans
    (Option.bind_fun_some _)

/-! ### Aliases of anything but compositions -/

/-- **An alias without `as` has the type of what it points to.** -/
theorem typeName_of_alias (hp : m.property? id = some p) (h : p.plainTarget? = some target)
    (hq : m.property? target = some q) (hfield : ∀ c, q.kind ≠ .composition c)
    (hleaf : (m.leafProperty id).isSome) (language : String) :
    m.typeName rules id language = m.typeName rules target language := by
  rw [typeName_of_field hp (not_composition_of_plainTarget h), typeName_of_field hq hfield,
    leafProperty_of_alias hp h hleaf, effectiveDomain_of_alias hp h hleaf]

theorem isBodyParam_of_field (hp : m.property? id = some p)
    (hfield : ∀ c, p.kind ≠ .composition c) :
    m.isBodyParam id = ((m.effectiveDomain id).bind m.domain?).any (·.bodyParam) := by
  cases hk : p.kind with
  | composition c => exact absurd hk (hfield c)
  | regular | association | propertyAlias => simp only [isBodyParam, hp, hk]

/-- **It goes into the body if what it points to does.** -/
theorem isBodyParam_of_alias (hp : m.property? id = some p) (h : p.plainTarget? = some target)
    (hq : m.property? target = some q) (hfield : ∀ c, q.kind ≠ .composition c)
    (hleaf : (m.leafProperty id).isSome) : m.isBodyParam id = m.isBodyParam target := by
  rw [isBodyParam_of_field hp (not_composition_of_plainTarget h), isBodyParam_of_field hq hfield,
    effectiveDomain_of_alias hp h hleaf]

/-! ### Aliases of compositions -/

variable {c : CompositionProperty}

theorem leafProperty_of_composition (hq : m.property? id = some q) (hk : q.kind = .composition c) :
    m.leafProperty id = some id := by
  have hends : endsChain q = true := by rw [endsChain, hk]
  rw [leafProperty, leafWithin_succ hq, hends, if_pos rfl]

theorem baseDomain_of_composition (hq : m.property? id = some q) (hk : q.kind = .composition c) :
    m.baseDomain id = c.domain.bind Reference.target := by
  rw [baseDomain, hq, Option.bind_some, baseFrom, hk]

theorem effectiveDomain_of_composition (hq : m.property? id = some q)
    (hk : q.kind = .composition c) :
    m.effectiveDomain id = c.domain.bind Reference.target := by
  have hbase : m.baseFrom (m.effectiveWithin chainLimit) q = c.domain.bind Reference.target := by
    rw [baseFrom, hk]
  have hplain : ∀ base, m.applyAs q base = some base := fun base => by simp [applyAs, asName, hk]
  rw [effectiveDomain, effectiveWithin_succ hq, hbase]
  exact (Option.bind_congr fun base _ => hplain base).trans (Option.bind_fun_some _)

/-- An alias of a composition has the type of the domain around it, with nothing put into it. -/
theorem typeName_of_alias_of_held (hp : m.property? id = some p) (h : p.plainTarget? = some target)
    (hq : m.property? target = some q) (hk : q.kind = .composition c)
    (hleaf : (m.leafProperty id).isSome) (language : String) : m.typeName rules id language
      = ((c.domain.bind Reference.target).bind m.domain?).bind (·.type? language) := by
  have hnoEnum : m.enumTypeName rules target = none := enumTypeName_of_not_regular hq (by simp [hk])
  rw [typeName_of_field hp (not_composition_of_plainTarget h), leafProperty_of_alias hp h hleaf,
    effectiveDomain_of_alias hp h hleaf, leafProperty_of_composition hq hk,
    effectiveDomain_of_composition hq hk, Option.bind_some, baseDomain_of_composition hq hk]
  cases c.domain.bind Reference.target with
  | none => rfl
  | some base =>
    simp only [Option.bind_some, innerType, hnoEnum, beq_self_eq_true, if_true]
    exact Option.bind_fun_some _

theorem isBodyParam_of_alias_of_held (hp : m.property? id = some p)
    (h : p.plainTarget? = some target)
    (hq : m.property? target = some q) (hk : q.kind = .composition c)
    (hleaf : (m.leafProperty id).isSome) :
    m.isBodyParam id = ((c.domain.bind Reference.target).bind m.domain?).any (·.bodyParam) := by
  rw [isBodyParam_of_field hp (not_composition_of_plainTarget h),
    effectiveDomain_of_alias hp h hleaf, effectiveDomain_of_composition hq hk]

end Model

namespace Store

variable {s : Store}

/-- **In a linked store an alias without `as` has the type of what it points to**, in every
language, and goes into the body just when that does, if its chain ends within the limit.  It points
to a property that is there.  If this is a composition, the alias has the type of the domain around
it, with no class put into it, or none. -/
theorem Reachable.typed_as_target (h : s.Reachable) (rules : NamingRules) {p : Property}
    (hp : p ∈ s.link.1.model.properties) {target : PropertyId}
    (halias : p.plainTarget? = some target) (hleaf : (s.link.1.model.leafProperty p.id).isSome) :
    ∃ q ∈ s.link.1.model.properties, q.id = target ∧
      ((∀ c, q.kind ≠ .composition c) →
        (∀ language, s.link.1.model.typeName rules p.id language
          = s.link.1.model.typeName rules target language) ∧
        s.link.1.model.isBodyParam p.id = s.link.1.model.isBodyParam target) ∧
      ∀ c, q.kind = .composition c →
        (∀ language, s.link.1.model.typeName rules p.id language
          = ((c.domain.bind Reference.target).bind s.link.1.model.domain?).bind
            (·.type? language)) ∧
        s.link.1.model.isBodyParam p.id
          = ((c.domain.bind Reference.target).bind s.link.1.model.domain?).any (·.bodyParam) := by
  rw [link_model] at hp hleaf ⊢
  have hsound := sound_link s.naming h.drafted.asLoaded
  have hfound := hsound.numbered.property?_of_mem hp
  obtain ⟨q, hq, rfl⟩ : ∃ q ∈ (s.draftModel.link s.naming).model.properties, q.id = target := by
    obtain ⟨a, hk, -, ht⟩ := Property.plainTarget?_eq_some.mp halias
    obtain ⟨r, hr, ht⟩ := Option.bind_eq_some_iff.mp ht
    have hlookup : p.kind.lookup? = some (a.cls, r) := by simp [hk, PropertyKind.lookup?, hr]
    obtain ⟨C, -, -, q, hq, hid, -⟩ := hsound.grounded p hp _ _ hlookup target ht
    exact ⟨q, hsound.numbered.mem_of_classProperties hq, hid⟩
  have htarget := hsound.numbered.property?_of_mem hq
  refine ⟨q, hq, rfl, fun hfield => ⟨fun language => ?_, ?_⟩, fun c hk => ⟨fun language => ?_, ?_⟩⟩
  · exact Model.typeName_of_alias hfound halias htarget hfield hleaf language
  · exact Model.isBodyParam_of_alias hfound halias htarget hfield hleaf
  · exact Model.typeName_of_alias_of_held hfound halias htarget hk hleaf language
  · exact Model.isBodyParam_of_alias_of_held hfound halias htarget hk hleaf

/-- A store with an alias of an alias that makes a list of its property. -/
def listed : Store :=
  loadAll {} [("A", "module: M\n---\ndomain:\n name: D\n asDomains:\n  list: L\n ts:\n  type: D\n"
      ++ "---\ndomain:\n name: L\n ts:\n  type: L"),
    ("B", "module: M\n---\nclass:\n name: K\n properties:\n - name: X\n   domain: D\n"
      ++ " - alias: {class: K, property: X}\n   name: V\n   as: list\n"
      ++ " - alias: {class: K, property: V}\n   name: W")]

/-- There the alias of the alias has the type of the latter, and is sent in the body if that is. -/
theorem typed_as_target_in_listed :
    ∃ p ∈ listed.link.1.model.properties, ∃ q ∈ listed.link.1.model.properties,
      q.alias?.isSome = true ∧ p.plainTarget? = some q.id ∧
      (listed.link.1.model.leafProperty p.id).isSome ∧
      (∀ language, listed.link.1.model.typeName {} p.id language
        = listed.link.1.model.typeName {} q.id language) ∧
      listed.link.1.model.isBodyParam p.id = listed.link.1.model.isBodyParam q.id := by
  have hreach : listed.Reachable := reachable_loadAll {} _
  have hfound : ∃ p ∈ listed.link.1.model.properties,
      (listed.link.1.model.leafProperty p.id).isSome ∧
      ∃ q ∈ listed.link.1.model.properties, p.plainTarget? = some q.id ∧ q.alias?.isSome := by
    have hspelled : listed = _ :=
      loadAll_eq_foldl
        (.cons (toList_append_eq String.toList_ofList String.toList_ofList)
          (.cons (toList_append_eq (toList_append_eq String.toList_ofList String.toList_ofList)
            String.toList_ofList) .nil))
    rw [hspelled]
    decide +kernel
  obtain ⟨p, hp, hleaf, q, hq, hplain, halias⟩ := hfound
  obtain ⟨q', hq', hid, hfield, -⟩ := Reachable.typed_as_target hreach {} hp hplain hleaf
  have hnumbered : listed.link.1.model.Numbered := by
    rw [link_model]
    exact (sound_link _ hreach.drafted.asLoaded).numbered
  obtain rfl := hnumbered.property_inj hq' hq hid
  have hkind : ∀ c, q'.kind ≠ .composition c := fun c hk => by simp [Property.alias?, hk] at halias
  exact ⟨p, hp, q', hq', halias, hplain, hleaf, hfield hkind⟩

end Store

end EntityModel
