import EntityModel.Proofs.Naming.Chains

/-!
# Domains read off chains

The leaf of a property is found by one walk and its domain by another, which goes down to the leaf
and takes each `as` on its way back.  Both follow the same chain (`Model.LeadsTo`) and give up at
the same length.  So a property whose chain ends in time has the domain of its leaf, exchanged under
one word after the other from the leaf outwards (`LeadsTo.effectiveWithin`), and a property without
a leaf has no domain (`effectiveWithin_eq_none`).
-/

namespace EntityModel

open Naming

namespace Model

variable (m : Model)

/-- A property that ends the chains that lead to it. -/
def IsLeaf (id : PropertyId) : Prop := ∃ p, m.property? id = some p ∧ endsChain p = true

def ownDomain (id : PropertyId) : Option DomainId :=
  (m.property? id).bind fun p =>
    match p.kind with
    | .regular r => r.domain.target
    | .composition c => c.domain.bind Reference.target
    | _ => none

def standsFor (word : String) (d : DomainId) : Option DomainId :=
  (m.domain? d).bind fun d => (d.asDomains.lookup word).bind Reference.target

/-- The words behind `as` along a chain; a leaf has none. -/
def wordsAlong (chain : List PropertyId) : List String :=
  chain.filterMap fun id => ((m.property? id).bind asName).map (·.value)

/-- A domain, exchanged under one word after the other, the last one first. -/
def exchanged (words : List String) (base : Option DomainId) : Option DomainId :=
  words.foldr (fun word d => d.bind (m.standsFor word)) base

variable {m} {id leaf : PropertyId} {rest : List PropertyId} {p : Property} {fuel : Nat}

/-! ### Leaves -/

theorem IsLeaf.ends (h : m.IsLeaf id) (hp : m.property? id = some p) : endsChain p = true := by
  obtain ⟨q, hq, hends⟩ := h
  exact Option.some.inj (hp.symm.trans hq) ▸ hends

theorem nextOnChain_of_ends (h : endsChain p = true) : m.nextOnChain p = none := by
  unfold endsChain at h
  unfold nextOnChain
  cases hk : p.kind with
  | regular | composition => rfl
  | association | propertyAlias => simp [hk] at h

theorem LeadsTo.leafWithin (h : m.LeadsTo m.nextOnChain id rest leaf) (hleaf : m.IsLeaf leaf) :
    ∀ fuel, rest.length ≤ fuel → m.leafWithin (fuel + 1) id = some leaf := by
  induction h with
  | here hp _ =>
    intro fuel _
    rw [leafWithin_succ hp, if_pos (hleaf.ends hp)]
  | @step id next leaf rest p hp hnext _ ih =>
    intro fuel hfuel
    obtain ⟨fuel, rfl⟩ := Nat.exists_eq_add_of_le' (Nat.lt_of_lt_of_le (Nat.succ_pos _) hfuel)
    rw [leafWithin_succ hp, endsChain_of_next hnext, if_neg Bool.false_ne_true, hnext,
      Option.bind_some]
    exact ih hleaf fuel (Nat.le_of_succ_le_succ hfuel)

/-- **A leaf is the end of a chain that is short enough.** -/
theorem exists_leadsTo_of_leafWithin (h : m.leafWithin fuel id = some leaf) :
    ∃ rest, m.LeadsTo m.nextOnChain id rest leaf ∧ m.IsLeaf leaf ∧ rest.length < fuel := by
  induction fuel generalizing id with
  | zero => simp [Model.leafWithin] at h
  | succ fuel ih =>
    cases hp : m.property? id with
    | none => simp [Model.leafWithin, hp] at h
    | some p =>
      rw [leafWithin_succ hp] at h
      split at h
      next hends =>
        obtain rfl := Option.some.inj h
        exact ⟨[], .here hp (nextOnChain_of_ends hends), ⟨p, hp, hends⟩, Nat.succ_pos fuel⟩
      next =>
        obtain ⟨next, hnext, hwithin⟩ := Option.bind_eq_some_iff.mp h
        obtain ⟨rest, hrest, hleaf, hlength⟩ := ih hwithin
        exact ⟨next :: rest, .step hp hnext hrest, hleaf, Nat.succ_lt_succ hlength⟩

/-! ### Domains -/

/-- At the end of a chain the domain is the one that is named there. -/
theorem baseFrom_of_ends (hp : m.property? id = some p) (h : endsChain p = true)
    (effective : PropertyId → Option DomainId) : m.baseFrom effective p = m.ownDomain id := by
  rw [ownDomain, hp, Option.bind_some]
  unfold endsChain at h
  unfold baseFrom
  cases hk : p.kind with
  | regular | composition => rfl
  | association | propertyAlias => simp [hk] at h

/-- A property makes of a domain what stands for it under its word, if it has one. -/
theorem bind_applyAs (hp : m.property? id = some p) (rest : List PropertyId)
    (base : Option DomainId) :
    (m.exchanged (m.wordsAlong rest) base).bind (m.applyAs p)
      = m.exchanged (m.wordsAlong (id :: rest)) base := by
  cases hword : asName p with
  | none =>
    have hwords : m.wordsAlong (id :: rest) = m.wordsAlong rest := by simp [wordsAlong, hp, hword]
    rw [hwords]
    exact (Option.bind_congr fun d _ => by simp [applyAs, hword]).trans (Option.bind_fun_some _)
  | some word =>
    have hwords : m.wordsAlong (id :: rest) = word.value :: m.wordsAlong rest := by
      simp [wordsAlong, hp, hword]
    rw [hwords]
    exact Option.bind_congr fun d _ => by simp only [applyAs, hword, standsFor, bind]

/-- **Along a chain that ends in time the domain of the leaf is exchanged under one word after the
other.** -/
theorem LeadsTo.effectiveWithin (h : m.LeadsTo m.nextOnChain id rest leaf) (hleaf : m.IsLeaf leaf) :
    ∀ fuel, rest.length ≤ fuel →
      m.effectiveWithin (fuel + 1) id = m.exchanged (m.wordsAlong (id :: rest))
      (m.ownDomain leaf) := by
  induction h with
  | @here id p hp _ =>
    intro fuel _
    rw [effectiveWithin_succ hp, baseFrom_of_ends hp (hleaf.ends hp)]
    exact bind_applyAs hp [] (m.ownDomain id)
  | @step id next leaf rest p hp hnext _ ih =>
    intro fuel hfuel
    obtain ⟨fuel, rfl⟩ := Nat.exists_eq_add_of_le' (Nat.lt_of_lt_of_le (Nat.succ_pos _) hfuel)
    rw [effectiveWithin_succ hp, baseFrom_of_next hnext,
      ih hleaf fuel (Nat.le_of_succ_le_succ hfuel)]
    exact bind_applyAs hp (next :: rest) (m.ownDomain leaf)

/-- Before its own `as`, a property has the domain of what it points to, and a leaf the domain that
it names. -/
theorem LeadsTo.baseDomain (h : m.LeadsTo m.nextOnChain id rest leaf) (hleaf : m.IsLeaf leaf)
    (hlength : rest.length ≤ chainLimit) :
    m.baseDomain id = rest.head?.elim (m.ownDomain leaf) m.effectiveDomain := by
  cases h with
  | here hp _ => exact (congrArg (Option.bind · _) hp).trans (baseFrom_of_ends hp (hleaf.ends hp) _)
  | @step _ next _ rest _ hp hnext hrest =>
    rw [Model.baseDomain, hp, Option.bind_some, baseFrom_of_next hnext]
    -- one property less is followed from here than from the next one itself, and both walks get to
    -- the leaf
    have hshort := hrest.effectiveWithin hleaf (chainLimit - 1) (Nat.le_of_succ_le_succ hlength)
    have hlong := hrest.effectiveWithin hleaf chainLimit (Nat.le_of_succ_le hlength)
    exact hshort.trans hlong.symm

/-- Where what a property points to has no domain, the property has none before its `as`, unless it
is a leaf. -/
theorem baseFrom_eq_none {effective : PropertyId → Option DomainId} (hends : endsChain p = false)
    (h : ∀ next, m.nextOnChain p = some next → effective next = none) :
    m.baseFrom effective p = none := by
  unfold endsChain at hends
  unfold baseFrom
  cases hk : p.kind with
  | regular | composition => simp [hk] at hends
  | association | propertyAlias => exact Option.bind_eq_none_iff.mpr h

theorem baseFrom_eq_none_of_leafWithin (hp : m.property? id = some p)
    (h : m.leafWithin (fuel + 1) id = none)
    (ih : ∀ next, m.leafWithin fuel next = none → m.effectiveWithin fuel next = none) :
    m.baseFrom (m.effectiveWithin fuel) p = none := by
  rw [leafWithin_succ hp] at h
  split at h
  next => exact absurd h (by simp)
  next hends =>
    refine baseFrom_eq_none (Bool.eq_false_iff.mpr hends) fun next hnext => ih next ?_
    rwa [hnext, Option.bind_some] at h

/-- **Without a leaf there is no domain.** -/
theorem effectiveWithin_eq_none :
    m.leafWithin fuel id = none → m.effectiveWithin fuel id = none := by
  induction fuel generalizing id with
  | zero => exact fun _ => rfl
  | succ fuel ih =>
    intro h
    cases hp : m.property? id with
    | none => simp [Model.effectiveWithin, hp]
    | some p => rw [effectiveWithin_succ hp, baseFrom_eq_none_of_leafWithin hp h fun _ => ih,
      Option.bind_none]

theorem baseDomain_eq_none (h : m.leafProperty id = none) : m.baseDomain id = none :=
  Option.bind_eq_none_iff.mpr fun _ hp => baseFrom_eq_none_of_leafWithin hp h fun _ =>
    effectiveWithin_eq_none

/-- **A property with a leaf has the domain of the leaf, exchanged under the words along its chain
from the leaf outwards, and before its own `as` the domain of the next property of the chain; a
property without one, whose chain breaks off, comes back to itself or goes on beyond the limit, has
no domain at all.** -/
theorem domains_along_chain (m : Model) (id : PropertyId) :
    match m.leafProperty id with
    | some leaf => ∃ rest, m.LeadsTo m.nextOnChain id rest leaf ∧ m.IsLeaf leaf ∧
      rest.length ≤ chainLimit ∧
      m.effectiveDomain id = m.exchanged (m.wordsAlong (id :: rest)) (m.ownDomain leaf) ∧
      m.baseDomain id = rest.head?.elim (m.ownDomain leaf) m.effectiveDomain
    | none => (∀ rest leaf, m.LeadsTo m.nextOnChain id rest leaf → m.IsLeaf leaf →
      chainLimit < rest.length) ∧
        m.effectiveDomain id = none ∧ m.baseDomain id = none := by
  cases h : m.leafProperty id with
  | some leaf =>
    obtain ⟨rest, hrest, hleaf, hlength⟩ := exists_leadsTo_of_leafWithin h
    have hlength := Nat.le_of_lt_succ hlength
    exact ⟨rest, hrest, hleaf, hlength, hrest.effectiveWithin hleaf chainLimit hlength,
      hrest.baseDomain hleaf hlength⟩
  | none =>
    refine ⟨fun rest leaf hrest hleaf => Nat.lt_of_not_le fun hlength => ?_,
      effectiveWithin_eq_none h, baseDomain_eq_none h⟩
    exact absurd (h.symm.trans (hrest.leafWithin hleaf chainLimit hlength)) (by simp)

end Model

end EntityModel
