import EntityModel.Linking.AsDomains
import EntityModel.Naming.Type
import EntityModel.Proofs.Naming.Stability
import EntityModel.Proofs.Source.Tables
import Mathlib.Data.List.Chain

/-!
# Where a chain of properties yields nothing

Names, leaves and domains are found along chains of aliases and associations that are followed up to
a fixed length.  In a model that lacks nothing (`Model.Whole`) that length is the only obstacle to a
name (`Whole.name_or_chain`) and to a leaf (`Whole.leaf_or_chain`); a domain may also be missing
because the leaf is a composition without one (`Whole.effective_or_bare`).
-/

namespace EntityModel

open Naming Linking

/-- A composition that no domain is put around. -/
def Property.IsBare (p : Property) : Prop := ∃ c, p.kind = .composition c ∧ c.domain = none

namespace Model

variable (m : Model)

/-- Nothing is missing in the model: what properties and domains point to is there, and each
property finds the word of its `as`. -/
structure Whole : Prop where
  numbered : m.Numbered
  next : ∀ p ∈ m.properties, endsChain p = false → ∃ q ∈ m.properties, m.nextOnChain p = some q.id
  associated : ∀ p ∈ m.properties, ∀ a, p.kind = .association a →
    ∃ c ∈ m.classes, a.association.target = some c.id
  domain : ∀ p ∈ m.properties, ∀ r, p.kind = .regular r →
    ∃ d ∈ m.domains, r.domain.target = some d.id
  around : ∀ p ∈ m.properties, ∀ c, p.kind = .composition c → ∀ r, c.domain = some r →
    ∃ d ∈ m.domains, r.target = some d.id
  asDomains : ∀ d ∈ m.domains, ∀ x ∈ d.asDomains, ∃ d' ∈ m.domains, x.2.target = some d'.id
  words : ∀ p ∈ m.properties, asDomainProblem m p = none

/-- From the property, `step` leads over so many others. -/
def LeadsOn (step : Property → Option PropertyId) (steps : Nat) (id : PropertyId) : Prop :=
  ∃ chain : List PropertyId, chain.length = steps + 1 ∧ chain.head? = some id ∧
    chain.IsChain fun a b => ∃ p, m.property? a = some p ∧ step p = some b

/-- From a property, `step` leads through the others of a list to the last of them, and no
further. -/
inductive LeadsTo (step : Property → Option PropertyId) :
    PropertyId → List PropertyId → PropertyId → Prop
  | here {id : PropertyId} {p : Property} :
    m.property? id = some p → step p = none → LeadsTo step id [] id
  | step {id next last : PropertyId} {rest : List PropertyId} {p : Property} :
    m.property? id = some p →
      step p = some next → LeadsTo step next rest last → LeadsTo step id (next :: rest) last

/-- The property that the name of a property is made from, unless it has a name of its own. -/
def nameStep (p : Property) : Option PropertyId :=
  match p.declaredName? with
  | some _ => none
  | none => m.nextOnChain p

variable {m} {rules : NamingRules} {step : Property → Option PropertyId}

theorem leadsOn_zero (id : PropertyId) : m.LeadsOn step 0 id := ⟨[id], rfl, rfl, .singleton id⟩

theorem LeadsOn.cons {steps : Nat} {p : Property} {id next : PropertyId}
    (hp : m.property? id = some p)
    (hstep : step p = some next) (h : m.LeadsOn step steps next) :
    m.LeadsOn step (steps + 1) id := by
  obtain ⟨chain, hlength, hhead, hchain⟩ := h
  refine ⟨id :: chain, by rw [List.length_cons, hlength], rfl, ?_⟩
  rw [List.isChain_cons]
  refine ⟨fun b hb => ?_, hchain⟩
  rw [hhead] at hb
  exact ⟨p, hp, Option.mem_some_iff.mp hb ▸ hstep⟩

/-- What a property leads on over is what the property that it leads to leads on over, and one
more. -/
theorem LeadsOn.next {steps : Nat} {p : Property} {id next : PropertyId}
    (hp : m.property? id = some p)
    (hstep : step p = some next) (h : m.LeadsOn step (steps + 1) id) :
    m.LeadsOn step steps next := by
  obtain ⟨chain, hlength, hhead, hchain⟩ := h
  match chain with
  | a :: b :: rest =>
    obtain rfl : a = id := Option.some.inj hhead
    obtain ⟨⟨q, hq, hb⟩, hrest⟩ := List.isChain_cons_cons.mp hchain
    obtain rfl : p = q := Option.some.inj (hp.symm.trans hq)
    obtain rfl : next = b := Option.some.inj (hstep.symm.trans hb)
    exact ⟨next :: rest, Nat.succ.inj hlength, rfl, hrest⟩

theorem LeadsTo.not_leadsOn {id last : PropertyId} {rest : List PropertyId}
    (h : m.LeadsTo step id rest last) :
    ∀ steps, rest.length < steps → ¬ m.LeadsOn step steps id := by
  induction h with
  | @here id p hp hstep =>
    rintro steps hlt ⟨chain, hlength, hhead, hchain⟩
    match steps, chain with
    | 0, _ => exact absurd hlt (Nat.lt_irrefl 0)
    | steps + 1, a :: b :: rest =>
      obtain rfl : a = id := Option.some.inj hhead
      obtain ⟨⟨q, hq, hb⟩, -⟩ := List.isChain_cons_cons.mp hchain
      obtain rfl : p = q := Option.some.inj (hp.symm.trans hq)
      exact absurd (hstep.symm.trans hb) (by simp)
  | step hp hstep _ ih =>
    intro steps hlength h
    match steps with
    | steps + 1 => exact ih steps (Nat.lt_of_succ_lt_succ hlength) (h.next hp hstep)

theorem LeadsTo.unique {id last last' : PropertyId} {rest rest' : List PropertyId}
    (h : m.LeadsTo step id rest last) (h' : m.LeadsTo step id rest' last') :
    rest = rest' ∧ last = last' := by
  induction h generalizing rest' with
  | here hp hnone =>
    cases h' with
    | here => exact ⟨rfl, rfl⟩
    | step hp' hsome _ =>
      obtain rfl := Option.some.inj (hp.symm.trans hp')
      exact absurd (hnone.symm.trans hsome) (by simp)
  | step hp hsome _ ih =>
    cases h' with
    | here hp' hnone =>
      obtain rfl := Option.some.inj (hp.symm.trans hp')
      exact absurd (hnone.symm.trans hsome) (by simp)
    | step hp' hsome' hrest =>
      obtain rfl := Option.some.inj (hp.symm.trans hp')
      obtain rfl := Option.some.inj (hsome.symm.trans hsome')
      obtain ⟨rfl, rfl⟩ := ih hrest
      exact ⟨rfl, rfl⟩

/-- **A chain that does not lead on over so many properties comes to an end before.** -/
theorem exists_leadsTo (hm : m.Numbered)
    (hstep : ∀ p ∈ m.properties, ∀ next, step p = some next → ∃ q ∈ m.properties, q.id = next)
    (steps : Nat) :
    ∀ p ∈ m.properties, ¬ m.LeadsOn step steps p.id →
      ∃ rest, ∃ last ∈ m.properties, m.LeadsTo step p.id rest last.id ∧ rest.length < steps := by
  induction steps with
  | zero => exact fun p _ h => absurd (leadsOn_zero p.id) h
  | succ steps ih =>
    intro p hp h
    have hfound := hm.property?_of_mem hp
    cases hnext : step p with
    | none => exact ⟨[], p, hp, .here hfound hnext, Nat.succ_pos steps⟩
    | some next =>
      obtain ⟨q, hq, rfl⟩ := hstep p hp next hnext
      obtain ⟨rest, last, hlast, hrest, hlength⟩ := ih q hq fun hon => h (.cons hfound hnext hon)
      exact ⟨q.id :: rest, last, hlast, .step hfound hnext hrest, Nat.succ_lt_succ hlength⟩

theorem declaredName?_of_ends {p : Property} (h : endsChain p = true) : p.declaredName?.isSome := by
  unfold endsChain at h
  unfold Property.declaredName? PropertyKind.declaredName?
  split at h <;> simp_all

/-! ### Names -/

/-- Where a property has no name, the one that it would be made from has none. -/
theorem Whole.nameless_next (hm : m.Whole) {below : PropertyId → Option String} {p : Property}
    (hp : p ∈ m.properties) (h : m.nameOf rules below p.kind = none) :
    ∃ q ∈ m.properties, m.nameStep p = some q.id ∧ below q.id = none := by
  have hundeclared : p.declaredName? = none := by
    unfold nameOf at h
    split at h
    · exact absurd h (by simp)
    · assumption
  have hends : endsChain p = false := by
    rw [Bool.eq_false_iff]
    intro hends
    have := declaredName?_of_ends hends
    rw [hundeclared] at this
    exact absurd this (by simp)
  obtain ⟨q, hq, hnext⟩ := hm.next p hp hends
  refine ⟨q, hq, by rw [nameStep, hundeclared]; exact hnext, ?_⟩
  unfold nameOf at h
  rw [show p.kind.declaredName? = none from hundeclared] at h
  cases hk : p.kind with
  | regular | composition => rw [endsChain, hk] at hends; exact absurd hends (by simp)
  | association a =>
    obtain ⟨c, hc, htarget⟩ := hm.associated p hp a hk
    have hkey : m.keyOf a = some q.id := by simpa [nextOnChain, hk] using hnext
    simpa [hk, htarget, hm.numbered.cls?_iff.mpr ⟨hc, rfl⟩, hkey] using h
  | propertyAlias a =>
    have htarget : a.property.bind Reference.target = some q.id := by
      simpa [nextOnChain, hk] using hnext
    simpa [hk, htarget] using h

/-- **A property without a name has a chain of nameless properties behind it.** -/
theorem Whole.name_or_chain (hm : m.Whole) (fuel : Nat) : ∀ p ∈ m.properties,
    (m.nameWithin rules fuel p.id).isSome ∨ m.LeadsOn m.nameStep fuel p.id := by
  induction fuel with
  | zero => exact fun p _ => Or.inr (leadsOn_zero p.id)
  | succ fuel ih =>
    intro p hp
    have hfound := hm.numbered.property?_of_mem hp
    refine or_iff_not_imp_left.mpr fun hnone => ?_
    rw [nameWithin_succ, hfound, Option.bind_some, Option.not_isSome_iff_eq_none] at hnone
    obtain ⟨q, hq, hstep, hbelow⟩ := hm.nameless_next hp hnone
    exact .cons hfound hstep ((ih q hq).resolve_left (by simp [hbelow]))

/-! ### Leaves -/

theorem endsChain_of_next {p : Property} {next : PropertyId} (h : m.nextOnChain p = some next) :
    endsChain p = false := by
  unfold nextOnChain at h
  unfold endsChain
  cases hk : p.kind with
  | regular | composition => rw [hk] at h; exact absurd h (by simp)
  | association | propertyAlias => rfl

theorem leafWithin_succ {fuel : Nat} {id : PropertyId} {p : Property}
    (hp : m.property? id = some p) :
    m.leafWithin (fuel + 1) id
      = if endsChain p then some id else (m.nextOnChain p).bind (m.leafWithin fuel) := by
  simp [leafWithin, hp, pure]

/-- **A property without a leaf has a chain behind it, and a leaf ends chains.** -/
theorem Whole.leaf_or_chain (hm : m.Whole) (fuel : Nat) : ∀ p ∈ m.properties,
    (∃ q ∈ m.properties, endsChain q = true ∧ m.leafWithin fuel p.id = some q.id) ∨
      m.LeadsOn m.nextOnChain fuel p.id := by
  induction fuel with
  | zero => exact fun p _ => Or.inr (leadsOn_zero p.id)
  | succ fuel ih =>
    intro p hp
    have hfound := hm.numbered.property?_of_mem hp
    rw [leafWithin_succ hfound]
    cases hends : endsChain p with
    | true => exact Or.inl ⟨p, hp, hends, rfl⟩
    | false =>
      obtain ⟨q, hq, hnext⟩ := hm.next p hp hends
      rw [hnext]
      rcases ih q hq with hleaf | hchain
      · exact Or.inl hleaf
      · exact Or.inr (.cons hfound hnext hchain)

/-- A leaf that is found is found within any longer chain as well. -/
theorem leafWithin_mono {fuel : Nat} : ∀ {more : Nat} {id leaf : PropertyId}, fuel ≤ more →
    m.leafWithin fuel id = some leaf → m.leafWithin more id = some leaf := by
  induction fuel with
  | zero => intro _ _ _ _ h; exact absurd h (by simp [leafWithin])
  | succ fuel ih =>
    intro more id leaf hle h
    obtain ⟨more, rfl⟩ := Nat.exists_eq_add_of_le' (Nat.lt_of_lt_of_le (Nat.succ_pos fuel) hle)
    cases hp : m.property? id with
    | none => simp [leafWithin, hp] at h
    | some p =>
      rw [leafWithin_succ hp] at h ⊢
      split at h
      next hends => rw [if_pos hends, h]
      next hends =>
        obtain ⟨next, hnext, h⟩ := Option.bind_eq_some_iff.mp h
        rw [if_neg hends, hnext, Option.bind_some, ih (by omega) h]

/-! ### Domains -/

theorem effectiveWithin_succ {fuel : Nat} {id : PropertyId} {p : Property}
    (hp : m.property? id = some p) :
    m.effectiveWithin (fuel + 1) id
      = (m.baseFrom (m.effectiveWithin fuel) p).bind (m.applyAs p) := by
  simp [effectiveWithin, hp]

theorem baseFrom_of_next {effective : PropertyId → Option DomainId} {p : Property}
    {next : PropertyId}
    (h : m.nextOnChain p = some next) : m.baseFrom effective p = effective next := by
  unfold baseFrom
  split
  · next hk => rw [nextOnChain, hk] at h; exact absurd h (by simp)
  · next hk => rw [nextOnChain, hk] at h; exact absurd h (by simp)
  · rw [h, Option.bind_some]

theorem baseFrom_mono {effective effective' : PropertyId → Option DomainId} {p : Property}
    {d : DomainId}
    (hle : ∀ id, effective id = some d → effective' id = some d)
    (h : m.baseFrom effective p = some d) :
    m.baseFrom effective' p = some d := by
  unfold baseFrom at h ⊢
  split at h
  · exact h
  · exact h
  · obtain ⟨next, hnext, hd⟩ := Option.bind_eq_some_iff.mp h
    rw [hnext, Option.bind_some, hle next hd]

/-- A domain that is found is found within any longer chain as well. -/
theorem effectiveWithin_mono {fuel : Nat} :
    ∀ {more : Nat} {id : PropertyId} {d : DomainId}, fuel ≤ more →
    m.effectiveWithin fuel id = some d → m.effectiveWithin more id = some d := by
  induction fuel with
  | zero => intro _ _ _ _ h; exact absurd h (by simp [effectiveWithin])
  | succ fuel ih =>
    intro more id d hle h
    obtain ⟨more, rfl⟩ := Nat.exists_eq_add_of_le' (Nat.lt_of_lt_of_le (Nat.succ_pos fuel) hle)
    cases hp : m.property? id with
    | none => simp [effectiveWithin, hp] at h
    | some p =>
      rw [effectiveWithin_succ hp, Option.bind_eq_some_iff] at h ⊢
      obtain ⟨base, hbase, happly⟩ := h
      exact ⟨base, baseFrom_mono (fun _ => ih (by omega)) hbase, happly⟩

/-- **Where the chain ends within the limit, a longer one yields the same domain**, or none as
well. -/
theorem effectiveWithin_of_leaf {fuel : Nat} : ∀ {more : Nat} {id : PropertyId}, fuel ≤ more →
    (m.leafWithin fuel id).isSome → m.effectiveWithin more id = m.effectiveWithin fuel id := by
  induction fuel with
  | zero => intro _ _ _ h; exact absurd h (by simp [leafWithin])
  | succ fuel ih =>
    intro more id hle h
    obtain ⟨more, rfl⟩ := Nat.exists_eq_add_of_le' (Nat.lt_of_lt_of_le (Nat.succ_pos fuel) hle)
    cases hp : m.property? id with
    | none => simp [leafWithin, hp] at h
    | some p =>
      rw [leafWithin_succ hp] at h
      rw [effectiveWithin_succ hp, effectiveWithin_succ hp]
      refine congrArg (Option.bind · (m.applyAs p)) ?_
      cases hnext : m.nextOnChain p with
      | some next =>
        rw [endsChain_of_next hnext, if_neg (by simp), hnext, Option.bind_some] at h
        rw [baseFrom_of_next hnext, baseFrom_of_next hnext, ih (by omega) h]
      | none =>
        unfold baseFrom
        rw [hnext]
        rfl

theorem Whole.applyAs_isSome (hm : m.Whole) {p : Property} (hp : p ∈ m.properties) {d : Domain}
    (hd : d ∈ m.domains) (hbase : m.baseDomain p.id = some d.id) :
    ∃ d' ∈ m.domains, m.applyAs p d.id = some d'.id := by
  have hfound := hm.numbered.domain?_iff.mpr ⟨hd, rfl⟩
  have hword := hm.words p hp
  unfold applyAs
  cases hname : asName p with
  | none => exact ⟨d, hd, rfl⟩
  | some word =>
    simp only [asDomainProblem, hname, hbase, hfound, bind, Option.bind_some] at hword
    split at hword
    · next t ht =>
      obtain ⟨r, hr, htarget⟩ := Option.bind_eq_some_iff.mp ht
      obtain ⟨d', hd', he⟩ := hm.asDomains d hd (word.value, r) (mem_of_lookup hr)
      exact ⟨d', hd', by simpa [hfound, hr] using he⟩
    · exact absurd hword (by simp)

/-- **A property with a leaf has a domain, unless the leaf is a bare composition.** -/
theorem Whole.effective_or_bare (hm : m.Whole) (fuel : Nat) :
    fuel ≤ chainLimit + 1 → ∀ p ∈ m.properties,
    ∀ q ∈ m.properties, m.leafWithin fuel p.id = some q.id →
      (∃ d ∈ m.domains, m.effectiveWithin fuel p.id = some d.id) ∨ q.IsBare := by
  induction fuel with
  | zero => intro _ p _ q _ h; exact absurd h (by simp [leafWithin])
  | succ fuel ih =>
    intro hfuel p hp q hq hleaf
    have hfound := hm.numbered.property?_of_mem hp
    rw [leafWithin_succ hfound] at hleaf
    rw [effectiveWithin_succ hfound]
    cases hends : endsChain p with
    | true =>
      rw [hends, if_pos rfl] at hleaf
      obtain rfl := hm.numbered.property_inj hp hq (Option.some.inj hleaf)
      cases hk : p.kind with
      | regular r =>
        obtain ⟨d, hd, hr⟩ := hm.domain p hp r hk
        exact Or.inl ⟨d, hd, by simp [baseFrom, applyAs, asName, hk, hr]⟩
      | composition c =>
        cases hc : c.domain with
        | none => exact Or.inr ⟨c, hk, hc⟩
        | some r =>
          obtain ⟨d, hd, hr⟩ := hm.around p hp c hk r hc
          exact Or.inl ⟨d, hd, by simp [baseFrom, applyAs, asName, hk, hc, hr]⟩
      | association | propertyAlias => rw [endsChain, hk] at hends; exact absurd hends (by simp)
    | false =>
      obtain ⟨next, hmem, hnext⟩ := hm.next p hp hends
      rw [hends, if_neg (by simp), hnext, Option.bind_some] at hleaf
      refine (ih (by omega) next hmem q hq hleaf).imp_left fun ⟨d, hd, heffective⟩ => ?_
      rw [baseFrom_of_next hnext, heffective, Option.bind_some]
      refine hm.applyAs_isSome hp hd ?_
      rw [baseDomain, hfound, Option.bind_some, baseFrom_of_next hnext]
      exact effectiveWithin_mono (by omega) heffective

end Model

end EntityModel
