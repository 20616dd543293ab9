import EntityModel.Proofs.Linking.StalledRounds
import EntityModel.Proofs.Naming.Chains
import Mathlib.Data.Set.Finite.List
import Mathlib.Order.WellFounded

/-!
# Properties that are not ready

As long as a class has a property that stands for a choice, or one without a name, nothing is chosen
from it (`Model.Unready`).  A property without a name has a chain of properties behind it, along
which names are derived: it is too long, or it ends at a property that nothing gives a name
(`Model.leadsOn_or_nameless`).  Such a chain goes from class to class, and where no class comes back
to itself that comes to an end (`Model.Untangled.induction`).
-/

namespace EntityModel

open Relation Naming Linking

/-! ### Going down a relation without cycles -/

theorem Model.follows_mem_classes {m : Model} (hm : m.Numbered) {C D : ClassId}
    (h : m.Follows C D) :
    C ∈ m.classes.map (·.id) := by
  obtain ⟨p, hp, -⟩ := h
  cases hc : m.cls? C with
  | none => simp [classProperties, hc] at hp
  | some c =>
    obtain ⟨hmem, hid⟩ := hm.cls?_iff.mp hc
    exact List.mem_map.mpr ⟨c, hmem, hid⟩

/-- The classes of a model are finitely many, so that going from class to class comes to an end. -/
theorem Model.Untangled.wellFounded {m : Model} (h : m.Untangled) :
    WellFounded fun D C : { C // C ∈ m.classes.map (·.id) } => TransGen m.Follows C.1 D.1 := by
  have : Finite { C // C ∈ m.classes.map (·.id) } :=
    (List.finite_toSet (m.classes.map (·.id))).to_subtype
  have : IsTrans { C // C ∈ m.classes.map (·.id) } fun D C => TransGen m.Follows C.1 D.1 :=
    ⟨fun _ _ _ hab hbc => TransGen.trans hbc hab⟩
  have : Std.Irrefl fun D C : { C // C ∈ m.classes.map (·.id) } => TransGen m.Follows C.1 D.1 :=
    ⟨fun C => h C.1⟩
  exact Finite.wellFounded_of_trans_of_irrefl _

/-- **Where no class comes back to itself, what holds of a class whenever it does of all those that
it leads to holds of all.** -/
theorem Model.Untangled.induction {m : Model} (h : m.Untangled) (hm : m.Numbered)
    {P : ClassId → Prop}
    (hstep : ∀ C, (∀ D, TransGen m.Follows C D → P D) → P C) (C : ClassId) : P C := by
  -- what is no class of the model leads nowhere
  have houtside : ∀ C, C ∉ m.classes.map (·.id) → P C := by
    intro C hC
    refine hstep C fun D hD => ?_
    obtain ⟨E, hE, -⟩ := TransGen.head'_iff.mp hD
    exact absurd (follows_mem_classes hm hE) hC
  have hinside : ∀ C : { C // C ∈ m.classes.map (·.id) }, P C.1 := by
    intro C
    induction C using h.wellFounded.induction with
    | _ C ih =>
      refine hstep C.1 fun D hD => ?_
      by_cases hmem : D ∈ m.classes.map (·.id)
      · exact ih ⟨D, hmem⟩ hD
      · exact houtside D hmem
  by_cases hmem : C ∈ m.classes.map (·.id)
  · exact hinside ⟨C, hmem⟩
  · exact houtside C hmem

/-! ### Properties that are not ready -/

namespace Model

variable {m : Model} {rules : NamingRules}

/-- As long as a class has the property, nothing is chosen from it: the property stands for a
choice, or it has no name. -/
def Unready (m : Model) (rules : NamingRules) (p : Property) : Prop :=
  p.standsForChoice = true ∨ m.propertyName? rules p.id = none

/-- The property has no name, whatever the names of others. -/
def Nameless (m : Model) (rules : NamingRules) (p : Property) : Prop :=
  ∀ below, m.nameOf rules below p.kind = none

/-- **A property without a name has a chain of properties behind it that is too long, or that ends
at one that nothing gives a name**; the chain goes from class to class. -/
theorem leadsOn_or_nameless {settled : Bool} (h : Sound rules settled m) (fuel : Nat) : ∀ C,
    ∀ p ∈ m.classProperties C, m.nameWithin rules fuel p.id = none →
    m.LeadsOn m.nameStep fuel p.id ∨
      ∃ E, ReflTransGen m.Follows C E ∧ ∃ q ∈ m.classProperties E, m.Nameless rules q := by
  induction fuel with
  | zero => exact fun _ p _ _ => Or.inl (leadsOn_zero p.id)
  | succ fuel ih =>
    intro C p hp hnone
    have hmem := h.numbered.mem_of_classProperties hp
    have hfound := h.numbered.property?_of_owned hp
    rw [nameWithin_succ, hfound, Option.bind_some] at hnone
    -- one step along the chain, to a property of a class that follows
    have hnext : ∀ D q, m.Follows C D → q ∈ m.classProperties D → m.nameStep p = some q.id →
        m.nameWithin rules fuel q.id = none → m.LeadsOn m.nameStep (fuel + 1) p.id ∨
          ∃ E, ReflTransGen m.Follows C E ∧ ∃ q ∈ m.classProperties E, m.Nameless rules q := by
      intro D q hD hq hstep hname
      refine (ih D q hq hname).imp (LeadsOn.cons hfound hstep) ?_
      rintro ⟨E, hE, hstop⟩
      exact ⟨E, .head hD hE, hstop⟩
    by_cases hless : m.Nameless rules p
    · exact Or.inr ⟨C, .refl, p, hp, hless⟩
    have hundeclared : p.declaredName? = none := by
      unfold nameOf at hnone
      split at hnone
      · exact absurd hnone (by simp)
      · assumption
    have hundeclared' : p.kind.declaredName? = none := hundeclared
    unfold nameOf at hnone
    simp only [Nameless, nameOf, hundeclared', not_forall] at hnone hless
    obtain ⟨below, hless⟩ := hless
    cases hk : p.kind with
    | regular | composition => simp [hk] at hless
    | association a =>
      simp only [hk] at hnone hless
      cases hc : a.association.target.bind m.cls? with
      | none => simp [hc] at hless
      | some target =>
        obtain ⟨D, hD, htarget⟩ := Option.bind_eq_some_iff.mp hc
        have hfollows : m.Follows C D := ⟨p, hp, by simp [Property.follows?, hk, hD]⟩
        cases hkey : m.keyOf a with
        | none => simp [hc, hkey] at hless
        | some t =>
          have hstep : m.nameStep p = some t := by
            simp [nameStep, hundeclared, nextOnChain, hk, hkey]
          have hbelow : m.nameWithin rules fuel t = none := by simpa [hc, hkey] using hnone
          cases hr : a.property with
          | some r =>
            have ht : r.target = some t := by simpa [keyOf, hr] using hkey
            obtain ⟨D', hD', -, q, hq, rfl, -⟩ :=
              h.grounded p hmem a.association r (by simp [hk, PropertyKind.lookup?, hr]) t ht
            obtain rfl := Option.some.inj (hD.symm.trans hD')
            exact hnext D q hfollows hq hstep hbelow
          | none =>
            obtain ⟨q, hq, rfl⟩ : ∃ q, m.singlePrimaryKey D = some q ∧ q.id = t := by
              simpa [keyOf, hr, hD, Option.bind_eq_some_iff] using hkey
            exact hnext D q hfollows (mem_of_singlePrimaryKey hq) hstep hbelow
    | propertyAlias a =>
      simp only [hk] at hnone hless
      cases ht : a.property.bind Reference.target with
      | none => simp [ht] at hless
      | some t =>
        obtain ⟨r, hr, htarget⟩ := Option.bind_eq_some_iff.mp ht
        have hstep : m.nameStep p = some t := by simp [nameStep, hundeclared, nextOnChain, hk, ht]
        obtain ⟨D, hD, -, q, hq, rfl, -⟩ :=
          h.grounded p hmem a.cls r (by simp [hk, PropertyKind.lookup?, hr]) t htarget
        have hfollows : m.Follows C D := ⟨p, hp, by simp [Property.follows?, hk, hD]⟩
        exact hnext D q hfollows hq hstep (by simpa [ht] using hnone)

theorem nameless_of_association {p : Property} {a : AssociationProperty}
    (hk : p.kind = .association a) (hundeclared : p.kind.declaredName? = none)
    (h : a.association.target.bind m.cls? = none ∨ m.keyOf a = none) : m.Nameless rules p := by
  intro below
  unfold nameOf
  rw [hundeclared, hk]
  rcases h with hnone | hnone
  · simp [hnone]
  · simp [hnone]

/-- Nothing gives a property a name if it is an open alias, or an association without a class or a
key. -/
theorem Nameless.cases {p : Property} (h : m.Nameless rules p) :
    isOpenAlias p = true ∨ ∃ a, p.kind = .association a ∧ p.kind.declaredName? = none ∧
      (a.association.target.bind m.cls? = none ∨ m.keyOf a = none) := by
  have hundeclared : p.kind.declaredName? = none := by
    have hnone := h fun _ => none
    unfold nameOf at hnone
    split at hnone
    · exact absurd hnone (by simp)
    · assumption
  have hnone := h fun _ => some ""
  unfold nameOf at hnone
  rw [hundeclared] at hnone
  cases hk : p.kind with
  | regular | composition =>
    have hends : endsChain p = true := by simp [endsChain, hk]
    have hsome := declaredName?_of_ends hends
    rw [show p.declaredName? = none from hundeclared] at hsome
    exact absurd hsome (by simp)
  | association a =>
    refine Or.inr ⟨a, rfl, hk ▸ hundeclared, ?_⟩
    simp only [hk] at hnone
    cases hc : a.association.target.bind m.cls? with
    | none => exact Or.inl rfl
    | some target =>
      right
      cases hkey : m.keyOf a with
      | none => rfl
      | some t => simp [hc, hkey] at hnone
  | propertyAlias a =>
    refine Or.inl (isOpenAlias_iff.mpr ⟨a, hk, ?_⟩)
    simp only [hk] at hnone
    cases ht : a.property.bind Reference.target with
    | none => rfl
    | some t => simp [ht] at hnone

theorem nameWithin_of_nameless {p : Property} {id : PropertyId} (hp : m.property? id = some p)
    (h : m.Nameless rules p) (fuel : Nat) : m.nameWithin rules fuel id = none := by
  cases fuel with
  | zero => rfl
  | succ fuel => rw [nameWithin_succ, hp, Option.bind_some]; exact h _

/-- A property has no name within the length of a chain of properties that are named after one
another. -/
theorem nameWithin_of_leadsOn (steps : Nat) : ∀ id, m.LeadsOn m.nameStep steps id →
    m.nameWithin rules steps id = none := by
  induction steps with
  | zero => exact fun _ _ => rfl
  | succ steps ih =>
    rintro id ⟨chain, hlength, hhead, hchain⟩
    obtain ⟨next, rest, rfl⟩ : ∃ next rest, chain = id :: next :: rest := by
      match chain, hhead, hlength with
      | a :: b :: rest, hhead, _ => exact ⟨b, rest, by rw [Option.some.inj hhead]⟩
    obtain ⟨⟨p, hp, hstep⟩, hrest⟩ := List.isChain_cons_cons.mp hchain
    have hbelow := ih next ⟨next :: rest, by simpa using hlength, rfl, hrest⟩
    have hundeclared : p.kind.declaredName? = none := by
      cases hd : p.declaredName? with
      | none => exact hd
      | some name => simp [nameStep, hd] at hstep
    have hnext : m.nextOnChain p = some next := by
      rwa [nameStep, show p.declaredName? = none from hundeclared] at hstep
    rw [nameWithin_succ, hp, Option.bind_some]
    unfold nameOf
    rw [hundeclared]
    cases hk : p.kind with
    | regular | composition => rfl
    | association a =>
      have hkey : m.keyOf a = some next := by simpa [nextOnChain, hk] using hnext
      simp [hkey, hbelow]
    | propertyAlias a =>
      have htarget : a.property.bind Reference.target = some next := by
        simpa [nextOnChain, hk] using hnext
      simp [htarget, hbelow]

end Model

end EntityModel
