import EntityModel.Proofs.Linking.Splicing
import Mathlib.Data.List.Chain
import Mathlib.Data.List.Perm.Subperm
import Mathlib.Logic.Relation

/-!
# The graph of aliases

A resolved alias points to a property, which may be an alias again.  `Points m` is this graph, and
`Acyclic m` says that no property comes back to itself.  Before an alias is pointed somewhere the
chain behind the new target is followed, and `closesCycle_eq_false` says what that rules out;
`Acyclic.of_new_edge` that it is enough.  Other changes of the model leave the targets of aliases
where they are, and `Acyclic.of_agree` covers them.
-/

namespace EntityModel.Linking

open Relation

def Points (m : Model) (a b : PropertyId) : Prop := aliasTarget m a = some b

/-- Following aliases never comes back. -/
def Acyclic (m : Model) : Prop := ∀ a, ¬ TransGen (Points m) a a

variable {m m' : Model}

def resolvedTo (p : Property) : Option PropertyId :=
  p.alias?.bind fun a => a.property.bind Reference.target

theorem aliasTarget_eq (m : Model) (id : PropertyId) :
    aliasTarget m id = (m.property? id).bind resolvedTo := by
  simp only [aliasTarget, bind]
  rfl

theorem resolvedTo_eq_some {p : Property} {t : PropertyId} :
    resolvedTo p = some t ↔ ∃ a r, p.kind = .propertyAlias a ∧ a.property = some r ∧
    r.target = some t := by
  cases hk : p.kind <;> simp [resolvedTo, Property.alias?, hk, Option.bind_eq_some_iff]

theorem isOpenAlias_iff {p : Property} :
    isOpenAlias p = true ↔ ∃ a, p.kind = .propertyAlias a ∧
    (a.property.bind Reference.target) = none := by
  cases hk : p.kind <;> simp [isOpenAlias, Property.alias?, hk]

theorem aliasTarget_of_mem (hm : m.Numbered) {p : Property} (hp : p ∈ m.properties) :
    aliasTarget m p.id = resolvedTo p := by
  rw [aliasTarget_eq, hm.property?_of_mem hp, Option.bind_some]

/-! ### Chains -/

/-- **A chain of aliases meets no property twice.** -/
theorem Acyclic.nodup (h : Acyclic m) {chain : List PropertyId} (hc : chain.IsChain (Points m)) :
    chain.Nodup := by
  have ht : chain.IsChain (TransGen (Points m)) := hc.imp fun _ _ => TransGen.single
  refine (List.isChain_iff_pairwise.mp ht).imp ?_
  rintro a _ hab rfl
  exact h a hab

/-- A chain of aliases from one property to another, within the model. -/
structure Walk (m : Model) (first last : PropertyId) (chain : List PropertyId) : Prop where
  head : chain.head? = some first
  steps : chain.IsChain (Points m)
  last : chain.getLast? = some last
  live : ∀ id ∈ chain, ∃ q ∈ m.properties, q.id = id

theorem Walk.extend {first last next : PropertyId} {chain : List PropertyId}
    (h : Walk m first last chain) (hp : Points m last next) (hn : ∃ q ∈ m.properties, q.id = next) :
    Walk m first next (chain ++ [next]) where
  head := by rw [List.head?_append, h.head]; rfl
  steps := by
    rw [List.isChain_append]
    refine ⟨h.steps, List.isChain_singleton _, ?_⟩
    intro x hx y hy
    rw [h.last, Option.mem_some] at hx
    rw [List.head?_cons, Option.mem_some] at hy
    exact hx ▸ hy ▸ hp
  last := List.getLast?_concat
  live id hid := by
    rw [List.mem_append, List.mem_singleton] at hid
    rcases hid with hid | rfl
    · exact h.live id hid
    · exact hn

theorem Walk.length_le {first last : PropertyId} {chain : List PropertyId}
    (h : Walk m first last chain) (ha : Acyclic m) : chain.length ≤ m.properties.length := by
  have hsub : chain ⊆ m.properties.map (·.id) := fun id hid => List.mem_map.mpr (h.live id hid)
  have := (List.subperm_of_subset (ha.nodup h.steps) hsub).length_le
  rwa [List.length_map] at this

/-- **Every chain of aliases can be followed to an end**, since it stays within the model and meets
no property twice. -/
theorem Acyclic.exists_end (h : Acyclic m) (hm : m.Numbered)
    (ht : ∀ a b, Points m a b → ∃ q ∈ m.properties, q.id = b) {p : Property}
    (hp : p ∈ m.properties) :
    ∃ chain, ∃ q ∈ m.properties, Walk m p.id q.id chain ∧ resolvedTo q = none := by
  -- by the number of properties that the chain has not met yet
  suffices hind : ∀ n chain last, Walk m p.id last chain → m.properties.length ≤ n + chain.length →
      ∃ chain, ∃ q ∈ m.properties, Walk m p.id q.id chain ∧ resolvedTo q = none by
    refine hind m.properties.length [p.id] p.id ⟨rfl, List.isChain_singleton _, rfl, ?_⟩ (by simp)
    simp only [List.mem_singleton, forall_eq]
    exact ⟨p, hp, rfl⟩
  intro n
  induction n with
  | zero =>
    intro chain last hw hlen
    obtain ⟨q, hq, rfl⟩ := hw.live last (List.mem_of_getLast? hw.last)
    refine ⟨chain, q, hq, hw, ?_⟩
    cases hr : resolvedTo q with
    | none => rfl
    | some t =>
      have hpoint : Points m q.id t := by rw [Points, aliasTarget_of_mem hm hq, hr]
      have := (hw.extend hpoint (ht _ _ hpoint)).length_le h
      rw [List.length_append, List.length_singleton] at this
      omega
  | succ n ih =>
    intro chain last hw hlen
    obtain ⟨q, hq, rfl⟩ := hw.live last (List.mem_of_getLast? hw.last)
    cases hr : resolvedTo q with
    | none => exact ⟨chain, q, hq, hw, hr⟩
    | some t =>
      have hpoint : Points m q.id t := by rw [Points, aliasTarget_of_mem hm hq, hr]
      refine ih (chain ++ [t]) t (hw.extend hpoint (ht _ _ hpoint)) ?_
      rw [List.length_append, List.length_singleton]
      omega

/-! ### The check before an alias is resolved -/

theorem chainReturns_eq_false {source : PropertyId} (fuel : Nat) :
    ∀ (seen : List PropertyId) (t : PropertyId), chainReturns m source fuel seen (some t) = false →
      ¬ ReflTransGen (Points m) t source := by
  induction fuel with
  | zero => intro seen t h; simp [chainReturns] at h
  | succ fuel ih =>
    intro seen t h hreach
    simp only [chainReturns, Bool.or_eq_false_iff, beq_eq_false_iff_ne] at h
    obtain ⟨⟨hne, _⟩, hrest⟩ := h
    rcases ReflTransGen.cases_head hreach with rfl | ⟨u, htu, hus⟩
    · exact hne rfl
    · rw [Points] at htu
      rw [htu] at hrest
      exact ih _ u hrest hus

/-- An alias that passes the check is not reached from its target. -/
theorem closesCycle_eq_false {source target : PropertyId}
    (h : closesCycle m source target = false) :
    ¬ ReflTransGen (Points m) target source := chainReturns_eq_false _ _ _ h

/-! ### Changes of the graph -/

/-- A change that leaves the targets of all properties pointed to makes no cycle: the whole of a
cycle is pointed to. -/
theorem Acyclic.of_agree (h : Acyclic m)
    (hagree : ∀ a b, Points m' a b → aliasTarget m' b = aliasTarget m b) : Acyclic m' := by
  intro a hcycle
  have ha : aliasTarget m' a = aliasTarget m a := by
    obtain ⟨b, _, hba⟩ := TransGen.tail'_iff.mp hcycle
    exact hagree b a hba
  refine h a ?_
  -- along the cycle, from its end: each vertex is pointed to by the one before
  suffices hpath : ∀ b, TransGen (Points m') a b → TransGen (Points m) a b from hpath a hcycle
  intro b hab
  induction hab with
  | single hab => exact .single (ha ▸ hab : aliasTarget m a = _)
  | tail hab hbc ih =>
    obtain ⟨x, _, hxb⟩ := TransGen.tail'_iff.mp hab
    exact ih.tail (hagree x _ hxb ▸ hbc : aliasTarget m _ = _)

/-- **Pointing an alias somewhere makes no cycle unless the chain from there leads back to it.** -/
theorem Acyclic.of_new_edge (h : Acyclic m) {source target : PropertyId}
    (hback : ¬ ReflTransGen (Points m) target source)
    (hnew : ∀ b, Points m' source b → b = target)
    (hagree : ∀ a b, Points m' a b → b ≠ source → aliasTarget m' b = aliasTarget m b) :
    Acyclic m' := by
  intro a hcycle
  -- a path either stays among the old edges or uses the new one
  suffices hpath : ∀ b, TransGen (Points m') a b →
      TransGen (Points m) a b ∨ ReflTransGen (Points m) a source ∧
      ReflTransGen (Points m) target b by
    rcases hpath a hcycle with hold | ⟨has, hta⟩
    · exact h a hold
    · exact hback (hta.trans has)
  have hstep : ∀ x y, (∃ w, Points m' w x) → Points m' x y →
      Points m x y ∨ x = source ∧ y = target := by
    rintro x y ⟨w, hwx⟩ hxy
    by_cases hx : x = source
    · subst hx
      exact Or.inr ⟨rfl, hnew y hxy⟩
    · exact Or.inl (hagree w x hwx hx ▸ hxy : aliasTarget m x = _)
  intro b hab
  induction hab with
  | single hab =>
    obtain ⟨w, _, hwa⟩ := TransGen.tail'_iff.mp hcycle
    rcases hstep a _ ⟨w, hwa⟩ hab with hold | ⟨rfl, rfl⟩
    · exact Or.inl (.single hold)
    · exact Or.inr ⟨.refl, .refl⟩
  | tail hab hbc ih =>
    obtain ⟨w, _, hwb⟩ := TransGen.tail'_iff.mp hab
    rcases hstep _ _ ⟨w, hwb⟩ hbc with hold | ⟨rfl, rfl⟩
    · rcases ih with ih | ⟨has, htb⟩
      · exact Or.inl (ih.tail hold)
      · exact Or.inr ⟨has, htb.tail hold⟩
    · rcases ih with ih | ⟨has, _⟩
      · exact Or.inr ⟨ih.to_reflTransGen, .refl⟩
      · exact Or.inr ⟨has, .refl⟩

/-- What is changed in place points where it pointed if aliases stay as they are. -/
theorem aliasTarget_mapProperties {g : Property → Property} (hg : ∀ p, (g p).alias? = p.alias?) :
    aliasTarget (m.mapProperties g) = aliasTarget m := by
  funext id
  rw [aliasTarget_eq, aliasTarget_eq, Model.property?_mapProperties, Option.bind_map]
  congr 1
  funext p
  simp [resolvedTo, hg]

end EntityModel.Linking
