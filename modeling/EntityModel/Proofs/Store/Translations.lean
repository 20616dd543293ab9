import EntityModel.Naming.Key
import EntityModel.Proofs.Naming.Chains
import EntityModel.Proofs.Store.Diagnosed

/-!
# Keys and labels of aliases

An alias without a label of its own shares the resource key of what it points to, and the text
behind the key is looked for along the same chain of such aliases (`LeadsTo.resourceKeyWithin`,
`LeadsTo.labelWithin`): it is the label written at the end of the chain, or that of the class that
the chain ends at an association to.  So key and text of an alias are those of its target.

Where nothing is written at the end there is no text to share, and each property is labelled by its
own name (`Reachable.translations_shared`).  So an alias that goes by another name has another label
than its target under the key that both share (`labels_differ_in_renamed`).
-/

namespace EntityModel

open Naming Linking

/-- What an alias without a label of its own shares its key with. -/
def Property.sharedWith? (p : Property) : Option PropertyId :=
  if p.label?.isNone then resolvedTo p else none

theorem Property.sharedWith?_eq_some {p : Property} {target : PropertyId} :
    p.sharedWith? = some target ↔
    ∃ a r, p.kind = .propertyAlias a ∧ a.label = none ∧ a.property = some r ∧
    r.target = some target := by
  unfold sharedWith?
  rw [Option.ite_none_right_eq_some, resolvedTo_eq_some, Option.isNone_iff_eq_none]
  constructor
  · rintro ⟨hlabel, a, r, hk, hr, ht⟩
    exact ⟨a, r, hk, by simpa [label?, hk] using hlabel, hr, ht⟩
  · rintro ⟨a, r, hk, hlabel, hr, ht⟩
    exact ⟨by simpa [label?, hk] using hlabel, a, r, hk, hr, ht⟩

namespace Model

variable (m : Model)

/-- The label written at a property, or else that of the class that it associates with. -/
def writtenLabel? (p : Property) : Option String :=
  match p.label? with
  | some label => some label
  | none => p.association?.bind fun a => (a.association.target.bind m.cls?).map (·.label)

variable (rules : NamingRules)

/-- The key that says where a property stands: module, owner and name. -/
def placeKey (id : PropertyId) : Option String :=
  (m.ownerInfo id.owner).map fun (owner, ns) =>
    joinKey [ns.key, Text.lowerFirst owner, Text.lowerFirst (m.propertyName rules id)]

/-- The key of a property that shares none; an alias that should share one and points nowhere has
none. -/
def endKey (id : PropertyId) (p : Property) : Option String :=
  if isOpenAlias p && p.label?.isNone then none else m.placeKey rules id

variable {m rules} {id next last : PropertyId} {rest : List PropertyId} {p e : Property}

/-! ### One step -/

theorem resourceKeyWithin_of_shared (hp : m.property? id = some p) (h : p.sharedWith? = some next)
    (fuel : Nat) :
    m.resourceKeyWithin rules (fuel + 1) id = m.resourceKeyWithin rules fuel next := by
  obtain ⟨a, r, hk, hlabel, hr, ht⟩ := Property.sharedWith?_eq_some.mp h
  simp [resourceKeyWithin, hp, hk, hlabel, hr, ht]

theorem labelWithin_of_shared (hp : m.property? id = some p) (h : p.sharedWith? = some next)
    (fuel : Nat) :
    m.labelWithin (fuel + 1) id = m.labelWithin fuel next := by
  obtain ⟨a, r, hk, hlabel, hr, ht⟩ := Property.sharedWith?_eq_some.mp h
  simp [labelWithin, hp, hk, Property.label?, hlabel, hr, ht]

/-- An alias without a label that shares nothing points nowhere. -/
theorem target_of_not_shared {a : AliasProperty} (hk : p.kind = .propertyAlias a)
    (hlabel : a.label = none)
    (h : p.sharedWith? = none) : a.property.bind Reference.target = none := by
  rw [Option.eq_none_iff_forall_ne_some]
  intro t ht
  obtain ⟨r, hr, ht⟩ := Option.bind_eq_some_iff.mp ht
  exact absurd (h.symm.trans (Property.sharedWith?_eq_some.mpr ⟨a, r, hk, hlabel, hr, ht⟩))
    (by simp)

theorem resourceKeyWithin_of_end (hp : m.property? id = some p) (h : p.sharedWith? = none)
    (fuel : Nat) :
    m.resourceKeyWithin rules (fuel + 1) id = m.endKey rules id p := by
  have hplace : (do
      let (owner, ns) ← m.ownerInfo id.owner
      return joinKey [ns.key, Text.lowerFirst owner, Text.lowerFirst (m.propertyName rules id)])
        = m.placeKey rules id := Option.map_eq_bind.symm
  simp only [resourceKeyWithin, hp, bind, Option.bind_some]
  cases hk : p.kind with
  | regular | association | composition =>
    simpa [endKey, isOpenAlias, Property.alias?, hk] using hplace
  | propertyAlias a =>
    cases hlabel : a.label with
    | some label => simpa [endKey, Property.label?, hk, hlabel] using hplace
    | none =>
      have hopen := target_of_not_shared hk hlabel h
      have hend : m.endKey rules id p = none := by
        simp [endKey, isOpenAlias_iff.mpr ⟨a, hk, hopen⟩, Property.label?, hk, hlabel]
      rw [hend]
      cases hr : a.property with
      | none => simp [hlabel, hr]
      | some r => simp [hlabel, hr, show r.target = none by simpa [hr] using hopen]

theorem labelWithin_of_end (hp : m.property? id = some p) (h : p.sharedWith? = none) (fuel : Nat) :
    m.labelWithin (fuel + 1) id = m.writtenLabel? p := by
  simp only [labelWithin, hp, bind, Option.bind_some, writtenLabel?]
  cases hlabel : p.label? with
  | some label => rfl
  | none =>
    cases hk : p.kind with
    | regular | composition => simp [Property.association?, hk]
    | association a =>
      simp only [Property.association?, hk, Option.bind_some, ← Option.bind_assoc,
        Option.map_eq_bind]
      rfl
    | propertyAlias a =>
      have hopen := target_of_not_shared hk (by simpa [Property.label?, hk] using hlabel) h
      cases hr : a.property with
      | none => simp [Property.association?, hk, hr]
      | some r => simp [Property.association?, hk, hr, show r.target = none by
        simpa [hr] using hopen]

/-! ### Along a chain -/

variable (rules) in
/-- **Along a chain of aliases without labels key and label are those of its end.** -/
theorem LeadsTo.translation (h : m.LeadsTo Property.sharedWith? id rest last)
    (hlast : m.property? last = some e) :
    ∀ fuel, rest.length ≤ fuel →
      m.resourceKeyWithin rules (fuel + 1) id = m.endKey rules last e ∧
        m.labelWithin (fuel + 1) id = m.writtenLabel? e := by
  induction h with
  | here hp hend =>
    intro fuel _
    obtain rfl := Option.some.inj (hp.symm.trans hlast)
    exact ⟨resourceKeyWithin_of_end hp hend fuel, labelWithin_of_end hp hend fuel⟩
  | step hp hshared _ ih =>
    intro fuel hfuel
    obtain ⟨fuel, rfl⟩ := Nat.exists_eq_add_of_le' (Nat.lt_of_lt_of_le (Nat.succ_pos _) hfuel)
    rw [resourceKeyWithin_of_shared hp hshared, labelWithin_of_shared hp hshared]
    exact ih hlast fuel (Nat.le_of_succ_le_succ hfuel)

end Model

namespace Store

variable {s : Store}

/-- **In a linked store an alias without a label of its own has the key of what it points to**,
which is that of the end of the chain of such aliases, if this comes within the limit.  **It has the
label of what it points to** as well if one is written at the end of the chain, and otherwise each
of the two is labelled by its own name. -/
theorem Reachable.translations_shared (h : s.Reachable) (rules : NamingRules) {p : Property}
    (hp : p ∈ s.link.1.model.properties) {target : PropertyId}
    (hshared : p.sharedWith? = some target)
    (hlimit : ¬ s.link.1.model.LeadsOn Property.sharedWith? (chainLimit + 1) p.id) :
    s.link.1.model.resourceKey rules p.id = s.link.1.model.resourceKey rules target ∧
      ∃ rest, ∃ e ∈ s.link.1.model.properties,
        s.link.1.model.LeadsTo Property.sharedWith? target rest e.id ∧
        s.link.1.model.resourceKey rules target = s.link.1.model.endKey rules e.id e ∧
        match s.link.1.model.writtenLabel? e with
        | some text =>
          s.link.1.model.label rules p.id = text ∧ s.link.1.model.label rules target = text
        | none =>
          s.link.1.model.label rules p.id = s.link.1.model.propertyName rules p.id ∧
            s.link.1.model.label rules target = s.link.1.model.propertyName rules target := by
  rw [link_model] at hp hlimit ⊢
  have hsound := sound_link s.naming h.drafted.asLoaded
  have hstep : ∀ p ∈ (s.draftModel.link s.naming).model.properties, ∀ next,
      p.sharedWith? = some next →
      ∃ q ∈ (s.draftModel.link s.naming).model.properties, q.id = next := by
    intro p hp next hnext
    refine hsound.live_of_points (a := p.id) ?_
    rw [Points, aliasTarget_of_mem hsound.numbered hp]
    unfold Property.sharedWith? at hnext
    exact (Option.ite_none_right_eq_some.mp hnext).2
  have hfound := hsound.numbered.property?_of_mem hp
  have hchain : ¬ (s.draftModel.link s.naming).model.LeadsOn Property.sharedWith?
      chainLimit target :=
    fun hon => hlimit (.cons hfound hshared hon)
  obtain ⟨q, hq, rfl⟩ := hstep p hp target hshared
  obtain ⟨rest, e, he, hrest, hlength⟩ :=
    Model.exists_leadsTo hsound.numbered hstep chainLimit q hq hchain
  have hlast := hsound.numbered.property?_of_mem he
  obtain ⟨hkey, hlabel⟩ := hrest.translation rules hlast chainLimit hlength.le
  obtain ⟨hkeyOwn, hlabelOwn⟩ :=
    (Model.LeadsTo.step hfound hshared hrest).translation rules hlast chainLimit hlength
  refine ⟨hkeyOwn.trans hkey.symm, rest, e, he, hrest, hkey, ?_⟩
  unfold Model.label
  rw [hlabel, hlabelOwn]
  cases (s.draftModel.link s.naming).model.writtenLabel? e <;> exact ⟨rfl, rfl⟩

/-- A class with a property that has a label and one that has none, and with aliases of both by
other names. -/
def renamed : Store :=
  loadAll {} [("A", "module: M\n---\ndomain:\n name: D\n---\nclass:\n name: K\n properties:\n"
    ++ " - {name: X, domain: D, label: Code}\n - {name: Z, domain: D}\n"
    ++ " - {alias: {class: K, property: X}, name: Y}\n - {alias: {class: K, property: Y}, name: W}\n"
    ++ " - {alias: {class: K, property: Z}, name: T}")]

theorem renamed_reachable : renamed.Reachable := reachable_loadAll {} _

theorem renamed_numbered : renamed.link.1.model.Numbered := renamed_reachable.numbered_link

/-- What linking makes of it: an alias leads over another one to a label, and one leads to a
property without. -/
theorem renamed_linked :
    renamed.link.2.errors = 0 ∧
      (∃ p ∈ renamed.link.1.model.properties, ∃ q ∈ renamed.link.1.model.properties,
        ∃ e ∈ renamed.link.1.model.properties, p.sharedWith? = some q.id ∧
        q.sharedWith? = some e.id ∧
        e.sharedWith? = none ∧ renamed.link.1.model.writtenLabel? e = some "Code") ∧
      ∃ p ∈ renamed.link.1.model.properties, ∃ q ∈ renamed.link.1.model.properties,
        p.sharedWith? = some q.id ∧ q.sharedWith? = none ∧
        (renamed.link.1.model.resourceKey {} p.id).isSome = true ∧
        renamed.link.1.model.resourceKey {} p.id = renamed.link.1.model.resourceKey {} q.id ∧
        renamed.link.1.model.label {} p.id ≠ renamed.link.1.model.label {} q.id := by
  have hspelled : renamed = _ :=
    loadAll_eq_foldl
      (.cons (toList_append_eq
        (toList_append_eq (toList_append_eq String.toList_ofList String.toList_ofList)
          String.toList_ofList) String.toList_ofList) .nil)
  rw [hspelled]
  decide +kernel

/-- There the alias of the alias has the key of the latter and the label that is written for the
property. -/
theorem translations_shared_in_renamed :
    ∃ p ∈ renamed.link.1.model.properties, ∃ q ∈ renamed.link.1.model.properties,
      p.sharedWith? = some q.id ∧ q.sharedWith?.isSome = true ∧
      ¬ renamed.link.1.model.LeadsOn Property.sharedWith? (chainLimit + 1) p.id ∧
      renamed.link.1.model.resourceKey {} p.id = renamed.link.1.model.resourceKey {} q.id ∧
      renamed.link.1.model.label {} p.id = "Code" ∧
      renamed.link.1.model.label {} q.id = "Code" := by
  obtain ⟨p, hp, q, hq, e, he, hpq, hqe, hend, hwritten⟩ := renamed_linked.2.1
  have hchain : renamed.link.1.model.LeadsTo Property.sharedWith? q.id [e.id] e.id :=
    .step (renamed_numbered.property?_of_mem hq) hqe
      (.here (renamed_numbered.property?_of_mem he) hend)
  have hlimit : ¬ renamed.link.1.model.LeadsOn Property.sharedWith? (chainLimit + 1) p.id :=
    (Model.LeadsTo.step (renamed_numbered.property?_of_mem hp) hpq hchain).not_leadsOn _ (by
      simp [chainLimit])
  obtain ⟨hkey, rest, e', he', hchain', -, hlabels⟩ :=
    Reachable.translations_shared renamed_reachable {} hp hpq hlimit
  obtain rfl := renamed_numbered.property_inj he' he (hchain'.unique hchain).2
  rw [hwritten] at hlabels
  exact ⟨p, hp, q, hq, hpq, by rw [hqe]; rfl, hlimit, hkey, hlabels⟩

/-- **Without an error** an alias and what it points to share a key and have different labels. -/
theorem labels_differ_in_renamed :
    renamed.Reachable ∧ renamed.link.2.errors = 0 ∧
      ∃ p ∈ renamed.link.1.model.properties, ∃ q ∈ renamed.link.1.model.properties,
        p.sharedWith? = some q.id ∧
        ¬ renamed.link.1.model.LeadsOn Property.sharedWith? (chainLimit + 1) p.id ∧
        (renamed.link.1.model.resourceKey {} p.id).isSome = true ∧
        renamed.link.1.model.resourceKey {} p.id = renamed.link.1.model.resourceKey {} q.id ∧
        renamed.link.1.model.label {} p.id ≠ renamed.link.1.model.label {} q.id := by
  obtain ⟨hnone, -, p, hp, q, hq, hpq, hend, hdiffers⟩ := renamed_linked
  have hlimit : ¬ renamed.link.1.model.LeadsOn Property.sharedWith? (chainLimit + 1) p.id :=
    (Model.LeadsTo.step (renamed_numbered.property?_of_mem hp) hpq
      (.here (renamed_numbered.property?_of_mem hq) hend)).not_leadsOn _ (by simp [chainLimit])
  exact ⟨renamed_reachable, hnone, p, hp, q, hq, hpq, hlimit, hdiffers⟩

end Store

end EntityModel
