import EntityModel.Linking.Aliases
import EntityModel.Proofs.Naming.Stability

/-!
# Putting aliases in the places of others

The rounds that resolve aliases change a model in two ways: they resolve references in place, and
they put the aliases that a choice stands for in its place, where everything behind moves on and is
numbered anew.  For both the names that were known stay (`Resolving.refines`, `Fits.refines`).  For
the second this rests on one fact: a class with no choice left, which is what `isSettled` asks for,
keeps its properties with their numbers (`Fits.classProperties_of_settled`).
-/

namespace EntityModel

def Property.content (p : Property) : Location × PropertyKind := (p.location, p.kind)

def Property.standsForChoice (p : Property) : Bool := p.alias?.any AliasProperty.needsExpansion

theorem Property.standsForChoice_iff {p : Property} :
    p.standsForChoice = true ↔ ∃ a, p.kind = .propertyAlias a ∧ a.property = none := by
  cases hk : p.kind <;>
    simp [standsForChoice, alias?, hk, AliasProperty.needsExpansion]

/-- Resolving a reference neither makes a choice nor ends one. -/
theorem PropertyKind.Resolves.standsForChoice {p p' : Property} (h : p.kind.Resolves p'.kind) :
    p'.standsForChoice = p.standsForChoice := by
  unfold Property.standsForChoice Property.alias?
  generalize p.kind = k at h
  generalize p'.kind = k' at h
  cases h with
  | refl | association => rfl
  | propertyAlias id ha _ => simp [AliasProperty.needsExpansion, ha]

namespace Model

variable {m : Model}

theorem singlePrimaryKey_iff {c : ClassId} {q : Property} :
    m.singlePrimaryKey c = some q ↔ m.primaryKey c = [q] := by
  unfold singlePrimaryKey
  constructor
  · intro h
    split at h
    · next p hp => rw [hp, Option.some.inj h]
    · simp at h
  · intro h
    rw [h]

theorem Numbered.property?_of_owned (hm : m.Numbered) {C : ClassId} {q : Property}
    (hq : q ∈ m.classProperties C) : m.property? q.id = some q :=
  hm.property?_of_mem (hm.mem_of_classProperties hq)

/-- A change in place that does no more than resolve references. -/
structure Resolving (m : Model) (g : Property → Property) : Prop where
  id : ∀ p, (g p).id = p.id
  location : ∀ p, (g p).location = p.location
  kind : ∀ p ∈ m.properties, p.kind.Resolves (g p).kind

variable {g : Property → Property}

theorem Resolving.primaryKey (hg : m.Resolving g) (hm : m.Numbered) (c : ClassId) :
    (m.mapProperties g).primaryKey c = (m.primaryKey c).map g := by
  unfold Model.primaryKey
  rw [classProperties_mapProperties, List.filter_map]
  congr 1
  exact List.filter_congr fun p hp => (hg.kind p (hm.mem_of_classProperties hp)).isPrimaryKey

/-- Resolving references in place keeps every name that is known. -/
theorem Resolving.refines (hg : m.Resolving g) (hm : m.Numbered) :
    m.Refines (m.mapProperties g) where
  classNames c := by
    rw [mapProperties_eq_mapLists, cls?_mapLists, Option.map_map]
    rfl
  keys c q h := by
    refine ⟨g q, ?_, hg.kind q (hm.mem_of_classProperties (mem_of_singlePrimaryKey h))⟩
    rw [singlePrimaryKey_iff] at h ⊢
    rw [hg.primaryKey hm, h]
    rfl
  targets _ _ _ _ t q _ _ hq := by
    refine ⟨g q, ?_, hg.kind q (mem_of_property? hm hq)⟩
    rw [property?_mapProperties, hq]
    rfl

end Model

namespace Linking

/-! ### Numbering anew -/

theorem renumber_positional (o : PropertyOwner) (ps : List Property) :
    Positional o (renumber o ps) := by
  intro i p hp
  simp only [renumber, List.getElem?_map, Option.map_eq_some_iff, List.getElem?_zipIdx] at hp
  obtain ⟨_, ⟨q, _, rfl⟩, rfl⟩ := hp
  simp

theorem renumber_of_positional {o : PropertyOwner} {ps : List Property} (h : Positional o ps) :
    renumber o ps = ps := by
  refine List.ext_getElem? fun i => ?_
  simp only [renumber, List.getElem?_map, List.getElem?_zipIdx, Option.map_map]
  cases hi : ps[i]? with
  | none => rfl
  | some p => simp [← h i p hi]

theorem content_renumber (o : PropertyOwner) (ps : List Property) :
    (renumber o ps).map Property.content = ps.map Property.content := by
  unfold renumber
  rw [List.map_map]
  refine Eq.trans ?_ (congrArg (List.map Property.content) (List.zipIdx_map_fst 0 ps))
  rw [List.map_map]
  rfl

/-! ### Splices -/

/-- The expansions of a round: each replaces a choice by aliases made of it, from a class that has
no choice left itself, and what an endpoint returns becomes one property. -/
structure Fits (m : Model) (expansions : List (PropertyId × List PropertyKind)) : Prop where
  expands : ∀ p ∈ m.properties, ∀ kinds, expansions.lookup p.id = some kinds →
    ∃ a C, p.kind = .propertyAlias a ∧ a.property = none ∧ a.cls.target = some C ∧
      isSettled m C = true ∧ ∀ k ∈ kinds, ∃ t name, k = expandedAlias a t name
  returned : ∀ p ∈ m.properties, ∀ kinds, expansions.lookup p.id = some kinds →
    ∀ e, p.owner = .returns e → kinds.length = 1

variable {m : Model} {expansions : List (PropertyId × List PropertyKind)}

theorem applyExpansions_eq_mapLists (m : Model)
    (expansions : List (PropertyId × List PropertyKind)) :
    applyExpansions m expansions
      = m.mapLists (fun o ps => renumber o (ps.flatMap (spliced expansions)))
          fun p => (spliced expansions p).headD p := rfl

theorem Fits.choice (h : Fits m expansions) {p : Property} (hp : p ∈ m.properties)
    {kinds : List PropertyKind} (hl : expansions.lookup p.id = some kinds) :
    p.standsForChoice = true := by
  obtain ⟨a, _, hk, hnone, _⟩ := h.expands p hp kinds hl
  exact Property.standsForChoice_iff.mpr ⟨a, hk, hnone⟩

theorem Fits.spliced_of_not_choice (h : Fits m expansions) {p : Property} (hp : p ∈ m.properties)
    (hs : p.standsForChoice = false) : spliced expansions p = [p] := by
  unfold spliced
  cases hl : expansions.lookup p.id with
  | none => rfl
  | some kinds => exact absurd (h.choice hp hl) (by simp [hs])

/-- What stands in the place of a property: itself, or aliases made of the choice that it is. -/
theorem Fits.mem_spliced (h : Fits m expansions) {p q : Property} (hp : p ∈ m.properties)
    (hq : q ∈ spliced expansions p) :
    q = p ∨ q.id = p.id ∧ q.location = p.location ∧ ∃ kinds a t name,
      expansions.lookup p.id = some kinds ∧ q.kind ∈ kinds ∧
      p.kind = .propertyAlias a ∧ a.property = none ∧ q.kind = expandedAlias a t name := by
  unfold spliced at hq
  cases hl : expansions.lookup p.id with
  | none =>
    simp only [hl, List.mem_singleton] at hq
    exact Or.inl hq
  | some kinds =>
    simp only [hl, List.mem_map] at hq
    obtain ⟨k, hk, rfl⟩ := hq
    obtain ⟨a, _, hpk, hnone, _, _, hkinds⟩ := h.expands p hp kinds hl
    obtain ⟨t, name, rfl⟩ := hkinds k hk
    exact Or.inr ⟨rfl, rfl, kinds, a, t, name, rfl, hk, hpk, hnone, rfl⟩

/-- The one property in the place of what an endpoint returns. -/
theorem Fits.spliced_returned (h : Fits m expansions) {p : Property} (hp : p ∈ m.properties)
    {e : EndpointId} (ho : p.owner = .returns e) :
    spliced expansions p = [(spliced expansions p).headD p] := by
  unfold spliced
  cases hl : expansions.lookup p.id with
  | none => rfl
  | some kinds =>
    obtain ⟨k, rfl⟩ := List.length_eq_one_iff.mp (h.returned p hp kinds hl e ho)
    rfl

theorem id_headD_spliced (expansions : List (PropertyId × List PropertyKind)) (p : Property) :
    ((spliced expansions p).headD p).id = p.id := by
  unfold spliced
  cases expansions.lookup p.id with
  | none => rfl
  | some kinds => cases kinds <;> rfl

theorem numbered_applyExpansions (hm : m.Numbered)
    (expansions : List (PropertyId × List PropertyKind)) :
    (applyExpansions m expansions).Numbered := by
  rw [applyExpansions_eq_mapLists]
  refine Model.Numbered.mapLists hm fun o ps ho => ?_
  cases o with
  | returns e => exact (hm.properties _ ps ho).map (id_headD_spliced expansions)
  | _ => exact renumber_positional _ _

/-- What the list of an owner holds once the expansions are in it. -/
theorem Fits.content_changedList (h : Fits m expansions) (hm : m.Numbered) {o : PropertyOwner}
    {ps : List Property} (ho : (o, ps) ∈ m.owned) :
    (changedList (fun o ps => renumber o (ps.flatMap (spliced expansions)))
        (fun p => (spliced expansions p).headD p) o ps).map Property.content
      = (ps.flatMap (spliced expansions)).map Property.content := by
  cases o with
  | returns e =>
    congr 1
    have hps : ∀ p ∈ ps, spliced expansions p = [(spliced expansions p).headD p] := fun p hp =>
      h.spliced_returned (Model.mem_properties_iff.mpr ⟨_, ps, ho, hp⟩)
        ((hm.properties _ ps ho).owner_eq hp)
    rw [List.flatMap_congr hps, ← List.map_eq_flatMap]
    rfl
  | _ => exact content_renumber _ _

/-- What the model holds once the expansions are in it, in order. -/
theorem Fits.content_properties (h : Fits m expansions) (hm : m.Numbered) :
    (applyExpansions m expansions).properties.map Property.content
      = (m.properties.flatMap (spliced expansions)).map Property.content := by
  rw [Model.properties_eq_owned, applyExpansions_eq_mapLists, Model.owned_mapLists,
    Model.properties_eq_owned, List.flatMap_map, List.map_flatMap, List.flatMap_assoc,
    List.map_flatMap]
  exact List.flatMap_congr fun ⟨o, ps⟩ ho => h.content_changedList hm ho

/-- What a class holds once the expansions are in it, in order. -/
theorem content_classProperties (m : Model) (expansions : List (PropertyId × List PropertyKind))
    (C : ClassId) :
    ((applyExpansions m expansions).classProperties C).map Property.content
      = ((m.classProperties C).flatMap (spliced expansions)).map Property.content := by
  rw [Model.classProperties_eq_classLists, applyExpansions_eq_mapLists, Model.classLists_mapLists,
    Model.classProperties_eq_classLists, List.flatMap_map, List.map_flatMap, List.flatMap_assoc,
    List.map_flatMap]
  exact List.flatMap_congr fun ⟨o, ps⟩ _ => content_renumber _ _

/-! ### Settled classes -/

theorem isSettled_iff {C : ClassId} :
    isSettled m C = true ↔ ∀ p ∈ m.classProperties C, p.standsForChoice = false := by
  simp [isSettled, Property.standsForChoice]

/-- **A settled class keeps its properties with their numbers.** -/
theorem Fits.classProperties_of_settled (h : Fits m expansions) (hm : m.Numbered) {C : ClassId}
    (hs : isSettled m C = true) :
    (applyExpansions m expansions).classProperties C = m.classProperties C := by
  rw [Model.classProperties_eq_classLists, Model.classProperties_eq_classLists,
    applyExpansions_eq_mapLists, Model.classLists_mapLists, List.flatMap_map]
  refine List.flatMap_congr fun ⟨o, ps⟩ ho => ?_
  have howned := hm.owned_of_classLists ho
  have hstay : ∀ p ∈ ps, spliced expansions p = [p] := by
    intro p hp
    refine h.spliced_of_not_choice (Model.mem_properties_iff.mpr ⟨o, ps, howned, hp⟩) ?_
    refine isSettled_iff.mp hs p ?_
    rw [Model.classProperties_eq_classLists]
    exact List.mem_flatMap.mpr ⟨(o, ps), ho, hp⟩
  show renumber o (ps.flatMap (spliced expansions)) = ps
  rw [List.flatMap_congr hstay, List.flatMap_singleton']
  exact renumber_of_positional (hm.properties o ps howned)

theorem Fits.isPrimaryKey_of_mem_spliced (h : Fits m expansions) {p q : Property}
    (hp : p ∈ m.properties) (hs : p.standsForChoice = true) (hq : q ∈ spliced expansions p) :
    q.isPrimaryKey = false := by
  rcases h.mem_spliced hp hq with rfl | ⟨_, _, _, a, t, name, _, _, _, _, hk⟩
  · obtain ⟨a, ha, _⟩ := Property.standsForChoice_iff.mp hs
    simp [Property.isPrimaryKey, ha]
  · simp [Property.isPrimaryKey, hk, expandedAlias]

/-- Aliases are no keys, so that splicing them leaves the keys of a class. -/
theorem Fits.content_primaryKey (h : Fits m expansions) (hm : m.Numbered) (C : ClassId) :
    ((applyExpansions m expansions).primaryKey C).map Property.content
      = (m.primaryKey C).map Property.content := by
  have hcontent : ∀ ps : List Property, (ps.filter Property.isPrimaryKey).map Property.content
      = (ps.map Property.content).filter fun c =>
          Property.isPrimaryKey ⟨⟨.cls default, 0⟩, c.1, c.2⟩ := by
    intro ps
    rw [List.filter_map]
    rfl
  unfold Model.primaryKey
  rw [hcontent, content_classProperties, ← hcontent, List.filter_flatMap]
  congr 1
  have hone : ∀ p ∈ m.classProperties C, (spliced expansions p).filter Property.isPrimaryKey
      = if p.isPrimaryKey then [p] else [] := by
    intro p hp
    have hmem := hm.mem_of_classProperties hp
    cases hs : p.standsForChoice with
    | false => rw [h.spliced_of_not_choice hmem hs, List.filter_cons, List.filter_nil]
    | true =>
      obtain ⟨a, ha, _⟩ := Property.standsForChoice_iff.mp hs
      rw [List.filter_eq_nil_iff.mpr fun q hq => by
        rw [h.isPrimaryKey_of_mem_spliced hmem hs hq]; simp]
      simp [Property.isPrimaryKey, ha]
  rw [List.flatMap_congr hone]
  induction m.classProperties C with
  | nil => rfl
  | cons p ps ih => rw [List.flatMap_cons, ih, List.filter_cons]; split <;> rfl

/-- Putting aliases in the places of others keeps every name that is known, as long as references
point into settled classes. -/
theorem Fits.refines (h : Fits m expansions) (hm : m.Numbered)
    (ht : ∀ p ∈ m.properties, ∀ cls r t, p.kind.lookup? = some (cls, r) → r.target = some t →
      ∃ C, isSettled m C = true ∧ ∃ q ∈ m.classProperties C, q.id = t) :
    m.Refines (applyExpansions m expansions) where
  classNames c := by
    rw [applyExpansions_eq_mapLists, Model.cls?_mapLists, Option.map_map]
    rfl
  keys c q hq := by
    have hc := h.content_primaryKey hm c
    rw [Model.singlePrimaryKey_iff.mp hq, List.map_singleton] at hc
    obtain ⟨q', hq', hcontent⟩ := List.map_eq_singleton_iff.mp hc
    have hk : q'.kind = q.kind := congrArg Prod.snd hcontent
    exact ⟨q', Model.singlePrimaryKey_iff.mpr hq', hk ▸ .refl _⟩
  targets p hp cls r t q hl hr hq := by
    obtain ⟨C, hs, x, hx, rfl⟩ := ht p hp cls r t hl hr
    obtain rfl : x = q := by
      rw [hm.property?_of_owned hx] at hq
      exact Option.some.inj hq
    refine ⟨x, ?_, .refl _⟩
    rw [← h.classProperties_of_settled hm hs] at hx
    exact (numbered_applyExpansions hm expansions).property?_of_owned hx

end Linking

end EntityModel
