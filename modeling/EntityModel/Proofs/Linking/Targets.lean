import EntityModel.Proofs.Linking.AliasGraph

/-!
# What resolved references point to

A reference to a property is resolved by looking its name up in the properties of a class, at a time
when other classes still change.  The invariant `Sound` says that this look-up stays true: whatever
a reference points to is among the properties of its class and goes by the name of the reference,
and, while aliases are being expanded, that class has no choice left in it, so that no expansion
moves it.  The graph of aliases has no cycle.  Resolving references in place keeps the invariant
(`Sound.mapProperties`), and with it every round over the associations
(`Sound.resolveAssociations`).
-/

namespace EntityModel

namespace Model

/-- The class has the property `t`, and the name that `t` goes by is known. -/
def GoesBy (m : Model) (rules : NamingRules) (C : ClassId) (name : String)
    (t : PropertyId) : Prop :=
  ∃ q ∈ m.classProperties C, q.id = t ∧ m.propertyName? rules t = some name

variable {m : Model} {rules : NamingRules}

theorem goesBy_of_findProperty {C : ClassId} {name : String} {t : PropertyId}
    (h : m.findProperty rules C name = some t) : m.GoesBy rules C name t := by
  obtain ⟨q, hq, rfl⟩ := Option.map_eq_some_iff.mp h
  have hname := List.find?_some hq
  exact ⟨q, List.mem_of_find?_eq_some hq, rfl, by simpa using hname⟩

/-- A name that is known stays when references are resolved in place. -/
theorem GoesBy.mapProperties {g : Property → Property} (hg : m.Resolving g) (hm : m.Numbered)
    {C : ClassId} {name : String} {t : PropertyId} (h : m.GoesBy rules C name t) :
    (m.mapProperties g).GoesBy rules C name t := by
  obtain ⟨q, hq, rfl, hname⟩ := h
  refine ⟨g q, ?_, hg.id q, ?_⟩
  · rw [classProperties_mapProperties]
    exact List.mem_map_of_mem hq
  · have hfound := hm.property?_of_owned hq
    refine (hg.refines hm).nameWithin hm (hm.mapProperties hg.id) _ q.id q.id q (g q) name hfound ?_
      (hg.kind q (hm.mem_of_classProperties hq)) hname
    rw [property?_mapProperties, hfound, Option.map_some]

end Model

namespace Linking

variable {m : Model} {rules : NamingRules}

/-- If the reference is resolved, then to a property of the class that goes by its name; `settled`
asks that the class has no choice left. -/
def Grounded (rules : NamingRules) (settled : Bool) (m : Model) (cls : ClassReference)
    (r : PropertyReference) : Prop :=
  ∀ t, r.target = some t →
    ∃ C, cls.target = some C ∧ (settled = true → isSettled m C = true) ∧ m.GoesBy rules C r.text t

theorem grounded_of_open {settled : Bool} {cls : ClassReference} {r : PropertyReference}
    (h : r.target = none) : Grounded rules settled m cls r := by
  intro t ht
  rw [h] at ht
  exact absurd ht (by simp)

/-- The model is numbered, its references to properties hold, and its aliases make no cycle. -/
structure Sound (rules : NamingRules) (settled : Bool) (m : Model) : Prop where
  numbered : m.Numbered
  grounded : ∀ p ∈ m.properties, ∀ cls r, p.kind.lookup? = some (cls, r) →
    Grounded rules settled m cls r
  acyclic : Acyclic m

theorem sound_of_open {settled : Bool} (hm : m.Numbered)
    (h : ∀ p ∈ m.properties, ∀ cls r, p.kind.lookup? = some (cls, r) → r.target = none) :
    Sound rules settled m where
  numbered := hm
  grounded p hp cls r hl := grounded_of_open (h p hp cls r hl)
  acyclic a hcycle := by
    obtain ⟨b, _, hba⟩ := Relation.TransGen.tail'_iff.mp hcycle
    rw [Points, aliasTarget_eq, Option.bind_eq_some_iff] at hba
    obtain ⟨p, hp, hr⟩ := hba
    obtain ⟨x, r, hk, hx, ht⟩ := resolvedTo_eq_some.mp hr
    have := h p (Model.mem_of_property? hm hp) x.cls r (by simp [hk, PropertyKind.lookup?, hx])
    rw [this] at ht
    exact absurd ht (by simp)

theorem Sound.unsettled {settled : Bool} (h : Sound rules settled m) : Sound rules false m where
  numbered := h.numbered
  grounded p hp cls r hl t ht := by
    obtain ⟨C, hC, _, hg⟩ := h.grounded p hp cls r hl t ht
    exact ⟨C, hC, by simp, hg⟩
  acyclic := h.acyclic

/-- What a resolved alias points to is a property of its class that goes by the name in it. -/
theorem Sound.of_points {settled : Bool} (h : Sound rules settled m) {a b : PropertyId}
    (hp : Points m a b) :
    ∃ C name, (settled = true → isSettled m C = true) ∧ m.GoesBy rules C name b := by
  rw [Points, aliasTarget_eq, Option.bind_eq_some_iff] at hp
  obtain ⟨p, hp, hr⟩ := hp
  obtain ⟨x, r, hk, hx, ht⟩ := resolvedTo_eq_some.mp hr
  obtain ⟨C, _, hs, hg⟩ := h.grounded p (Model.mem_of_property? h.numbered hp) x.cls r
    (by simp [hk, PropertyKind.lookup?, hx]) b ht
  exact ⟨C, r.text, hs, hg⟩

theorem Sound.live_of_points {settled : Bool} (h : Sound rules settled m) {a b : PropertyId}
    (hp : Points m a b) : ∃ q ∈ m.properties, q.id = b := by
  obtain ⟨C, name, _, q, hq, hid, _⟩ := h.of_points hp
  exact ⟨q, h.numbered.mem_of_classProperties hq, hid⟩

/-! ### Resolving in place -/

variable {g : Property → Property}

theorem isSettled_mapProperties (hg : m.Resolving g) (hm : m.Numbered) (C : ClassId) :
    isSettled (m.mapProperties g) C = isSettled m C := by
  rw [Bool.eq_iff_iff, isSettled_iff, isSettled_iff, Model.classProperties_mapProperties]
  simp only [List.mem_map, forall_exists_index, and_imp, forall_apply_eq_imp_iff₂]
  refine forall₂_congr fun p hp => ?_
  rw [(hg.kind p (hm.mem_of_classProperties hp)).standsForChoice]

theorem Grounded.mapProperties {settled : Bool} {cls : ClassReference} {r : PropertyReference}
    (h : Grounded rules settled m cls r) (hg : m.Resolving g) (hm : m.Numbered) :
    Grounded rules settled (m.mapProperties g) cls r := by
  intro t ht
  obtain ⟨C, hC, hs, hname⟩ := h t ht
  exact ⟨C, hC, by rwa [isSettled_mapProperties hg hm], hname.mapProperties hg hm⟩

/-- Resolving references in place keeps the invariant if what is resolved was looked up and no cycle
of aliases is closed. -/
theorem Sound.mapProperties {settled : Bool} (h : Sound rules settled m) (hg : m.Resolving g)
    (hnew : ∀ p ∈ m.properties, ∀ cls r, (g p).kind.lookup? = some (cls, r) →
      Grounded rules settled m cls r)
    (hac : Acyclic (m.mapProperties g)) : Sound rules settled (m.mapProperties g) where
  numbered := h.numbered.mapProperties hg.id
  grounded := by
    intro p' hp' cls r hl
    rw [Model.properties_mapProperties, List.mem_map] at hp'
    obtain ⟨p, hp, rfl⟩ := hp'
    exact (hnew p hp cls r hl).mapProperties hg h.numbered
  acyclic := hac

/-! ### Rounds over associations -/

theorem openTarget_eq_some {p : Property} {C : ClassId} {r : PropertyReference} :
    openTarget p = some (C, r) ↔ ∃ a, p.kind = .association a ∧ a.property = some r ∧
      a.association.target = some C ∧ r.target = none := by
  cases hk : p.kind with
  | association a =>
    cases hp : a.property with
    | none => simp [openTarget, Property.association?, hk, hp]
    | some r' =>
      cases hc : a.association.target with
      | none => simp [openTarget, Property.association?, hk, hp, hc]
      | some C' =>
        cases ht : r'.target with
        | none => simp [openTarget, Property.association?, hk, hp, hc, ht]; grind
        | some t => simp [openTarget, Property.association?, hk, hp, hc, ht]; grind
  | _ => simp [openTarget, Property.association?, hk]

theorem associationTarget_eq_some {settled : Bool} {p : Property} {t : PropertyId} :
    associationTarget m rules settled p = some t ↔ ∃ C r, openTarget p = some (C, r) ∧
      (settled = true → isSettled m C = true) ∧ m.findProperty rules C r.text = some t := by
  cases ho : openTarget p with
  | none => simp [associationTarget, ho]
  | some cr =>
    obtain ⟨C, r⟩ := cr
    cases hs : isSettled m C <;> cases settled <;> simp [associationTarget, ho, hs]

theorem withAssociationTarget_cases (m : Model) (rules : NamingRules) (settled : Bool)
    (p : Property) :
    withAssociationTarget (associationTarget m rules settled p) p = p ∨
      ∃ a r C t, p.kind = .association a ∧ a.property = some r ∧ a.association.target = some C ∧
        r.target = none ∧ (settled = true → isSettled m C = true) ∧
        m.findProperty rules C r.text = some t ∧
        withAssociationTarget (associationTarget m rules settled p) p
          = { p with kind := .association { a with property := some (r.resolve t) } } := by
  cases ht : associationTarget m rules settled p with
  | none => left; unfold withAssociationTarget; split <;> simp_all
  | some t =>
    right
    obtain ⟨C, r, ho, hs, hf⟩ := associationTarget_eq_some.mp ht
    obtain ⟨a, hk, hp, hC, hr⟩ := openTarget_eq_some.mp ho
    exact ⟨a, r, C, t, hk, hp, hC, hr, hs, hf, by simp [withAssociationTarget, hk, hp]⟩

theorem resolving_associationRound (m : Model) (rules : NamingRules) (settled : Bool) :
    m.Resolving fun p => withAssociationTarget (associationTarget m rules settled p) p where
  id p := by unfold withAssociationTarget; split <;> rfl
  location p := by unfold withAssociationTarget; split <;> rfl
  kind p _ := by
    rcases withAssociationTarget_cases m rules settled p with h |
      ⟨a, r, C, t, hk, hp, _, hr, _, _, h⟩
    · rw [h]; exact .refl _
    · rw [h, hk]; exact .association t hp hr

theorem alias?_withAssociationTarget (target : Option PropertyId) (p : Property) :
    (withAssociationTarget target p).alias? = p.alias? := by
  unfold withAssociationTarget
  split
  · next hk => simp [Property.alias?, hk]
  · rfl

theorem Sound.associationRound {settled : Bool} (h : Sound rules settled m) :
    Sound rules settled (associationRound m rules settled) := by
  refine h.mapProperties (resolving_associationRound m rules settled) ?_ ?_
  · intro p hp cls r hl
    rcases withAssociationTarget_cases m rules settled p with he |
      ⟨a, r', C, t, hk, _, hC, _, hs, hf, he⟩
    · rw [he] at hl
      exact h.grounded p hp cls r hl
    · rw [he] at hl
      obtain ⟨rfl, rfl⟩ : a.association = cls ∧ r'.resolve t = r := by
        simpa [PropertyKind.lookup?] using hl
      rintro _ ⟨⟩
      exact ⟨C, hC, hs, Model.goesBy_of_findProperty hf⟩
  · refine h.acyclic.of_agree fun _ b _ => congrFun ?_ b
    exact aliasTarget_mapProperties fun p => alias?_withAssociationTarget _ p

theorem Sound.associationRounds {settled : Bool} (fuel : Nat) (h : Sound rules settled m) :
    Sound rules settled (associationRounds rules settled fuel m) := by
  induction fuel generalizing m with
  | zero => exact h
  | succ fuel ih =>
    unfold Linking.associationRounds
    split
    · exact ih h.associationRound
    · exact h

theorem Sound.resolveAssociations {settled : Bool} (h : Sound rules settled m) :
    Sound rules settled (resolveAssociations rules settled m) := h.associationRounds _

end Linking

end EntityModel
