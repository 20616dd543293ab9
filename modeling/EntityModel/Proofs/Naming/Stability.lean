import EntityModel.Naming.Name
import EntityModel.Proofs.Model.PropertyLists

/-!
# Names do not change once they are known

Linking resolves references and puts aliases in the places of others while names are already being
looked up.  A name hangs on three things only: the names of classes, the single primary key of a
class, and the properties that references already point to.  `Model.Refines m m'` says that `m'` has
all of these as `m` has them, up to references that `m` left open, and `Refines.nameWithin` that
then every name known in `m` is the same in `m'`, at the same length of chain.
-/

namespace EntityModel

namespace PropertyKind

/-- The reference to a property, if the kind has one, with the class that it is looked up on. -/
def lookup? : PropertyKind → Option (ClassReference × PropertyReference)
  | .association a => a.property.map (a.association, ·)
  | .propertyAlias a => a.property.map (a.cls, ·)
  | _ => none

/-- The kind itself, or what it is once its reference to a property is resolved. -/
inductive Resolves : PropertyKind → PropertyKind → Prop
  | refl (k : PropertyKind) : Resolves k k
  | association {a : AssociationProperty} {r : PropertyReference} (id : PropertyId) :
      a.property = some r → r.target = none →
      Resolves (.association a) (.association { a with property := some (r.resolve id) })
  | propertyAlias {a : AliasProperty} {r : PropertyReference} (id : PropertyId) :
      a.property = some r → r.target = none →
      Resolves (.propertyAlias a) (.propertyAlias { a with property := some (r.resolve id) })

theorem Resolves.declaredName? {k k' : PropertyKind} (h : k.Resolves k') :
    k'.declaredName? = k.declaredName? := by cases h <;> rfl

theorem Resolves.isPrimaryKey {p p' : Property} (h : p.kind.Resolves p'.kind) :
    p'.isPrimaryKey = p.isPrimaryKey := by
  unfold Property.isPrimaryKey
  generalize p.kind = k at h
  generalize p'.kind = k' at h
  cases h <;> rfl

theorem Resolves.lookup? {k k' : PropertyKind} (h : k.Resolves k') {cls : ClassReference}
    {r : PropertyReference} (hk : k.lookup? = some (cls, r)) {t : PropertyId}
    (ht : r.target = some t) : k' = k := by
  cases h with
  | refl => rfl
  | association id ha hr | propertyAlias id ha hr =>
    simp only [PropertyKind.lookup?, ha, Option.map_some, Option.some.injEq, Prod.mk.injEq] at hk
    rw [← hk.2, hr] at ht
    exact absurd ht (by simp)

end PropertyKind

namespace Model

open Naming

variable (m : Model) (rules : NamingRules)

/-- The name of a property of a kind, where `below` names what it points to. -/
def nameOf (below : PropertyId → Option String) (k : PropertyKind) : Option String :=
  match k.declaredName? with
  | some name => some name.value
  | none =>
    match k with
    | .association a =>
      (a.association.target.bind m.cls?).bind fun target =>
        ((m.keyOf a).bind below).map (associationName rules a target.name.value)
    | .propertyAlias a =>
      ((a.property.bind Reference.target).bind below).map fun base =>
        let className := ((a.cls.target.bind m.cls?).map (·.name.value)).getD ""
        affixText className a.before ++ base ++ affixText className a.after
    | _ => none

theorem nameWithin_succ (fuel : Nat) (id : PropertyId) :
    m.nameWithin rules (fuel + 1) id
      = (m.property? id).bind fun p => m.nameOf rules (m.nameWithin rules fuel) p.kind := by
  simp only [nameWithin, bind]
  congr 1
  funext p
  have hp : p.declaredName? = p.kind.declaredName? := rfl
  unfold nameOf
  rw [hp]
  cases p.kind.declaredName? with
  | some name => rfl
  | none =>
    cases p.kind with
    | regular | composition => rfl
    | association a =>
      simp only [Option.bind_assoc, Option.map_eq_bind]
      rfl
    | propertyAlias a =>
      simp only [Option.bind_assoc, Option.map_eq_bind]
      rfl

/-- What names in `m` hang on is found in `m'` as well. -/
structure Refines (m m' : Model) : Prop where
  classNames : ∀ c, (m'.cls? c).map (·.name.value) = (m.cls? c).map (·.name.value)
  keys : ∀ c q, m.singlePrimaryKey c = some q →
    ∃ q', m'.singlePrimaryKey c = some q' ∧ q.kind.Resolves q'.kind
  targets : ∀ p ∈ m.properties, ∀ cls r t q, p.kind.lookup? = some (cls, r) → r.target = some t →
    m.property? t = some q → ∃ q', m'.property? t = some q' ∧ q.kind.Resolves q'.kind

variable {m} {m' : Model} {rules}

theorem mem_of_singlePrimaryKey {c : ClassId} {q : Property} (h : m.singlePrimaryKey c = some q) :
    q ∈ m.classProperties c := by
  unfold singlePrimaryKey at h
  split at h
  · next p hp =>
    have : p ∈ m.primaryKey c := by rw [hp]; exact List.mem_singleton_self p
    rw [← Option.some.inj h]
    exact (List.mem_filter.mp this).1
  · simp at h

theorem Refines.key (hr : Refines m m') (hm : m.Numbered) (hm' : m'.Numbered)
    {below below' : PropertyId → Option String}
    (hb : ∀ t t' q q' n, m.property? t = some q → m'.property? t' = some q' →
      q.kind.Resolves q'.kind → below t = some n → below' t' = some n)
    (hlive : ∀ t n, below t = some n → ∃ q, m.property? t = some q)
    {p : Property} (hp : p ∈ m.properties) {a : AssociationProperty} (hk : p.kind = .association a)
    {n : String} (h : (m.keyOf a).bind below = some n) : (m'.keyOf a).bind below' = some n := by
  obtain ⟨t, ht, hn⟩ := Option.bind_eq_some_iff.mp h
  obtain ⟨q, hq⟩ := hlive t n hn
  cases hap : a.property with
  | some r =>
    simp only [keyOf, hap] at ht ⊢
    have hl : p.kind.lookup? = some (a.association, r) := by simp [hk, PropertyKind.lookup?, hap]
    obtain ⟨q', hq', hres⟩ := hr.targets p hp _ r t q hl ht hq
    rw [ht, Option.bind_some]
    exact hb t t q q' n hq hq' hres hn
  | none =>
    simp only [keyOf, hap, bind, Option.bind_eq_some_iff] at ht
    obtain ⟨c, hc, k, hkey, hid⟩ := ht
    obtain rfl : k.id = t := Option.some.inj hid
    obtain ⟨k', hkey', hres⟩ := hr.keys c k hkey
    have hmem := hm.mem_of_classProperties (mem_of_singlePrimaryKey hkey)
    have hmem' := hm'.mem_of_classProperties (mem_of_singlePrimaryKey hkey')
    simp only [keyOf, hap, hc, bind, Option.bind_some, hkey', pure]
    exact hb k.id k'.id k k' n (hm.property?_of_mem hmem) (hm'.property?_of_mem hmem') hres hn

/-- **A name that is known stays.**  The two properties may stand at different places, as long as
the second is the first with no more than its reference resolved. -/
theorem Refines.nameWithin (hr : Refines m m') (hm : m.Numbered) (hm' : m'.Numbered) (fuel : Nat) :
    ∀ (t t' : PropertyId) (q q' : Property) (n : String), m.property? t = some q →
      m'.property? t' = some q' → q.kind.Resolves q'.kind →
      m.nameWithin rules fuel t = some n → m'.nameWithin rules fuel t' = some n := by
  induction fuel with
  | zero => intro t t' q q' n _ _ _ h; simp [Model.nameWithin] at h
  | succ fuel ih =>
    intro t t' q q' n hq hq' hres h
    rw [nameWithin_succ, hq, Option.bind_some] at h
    rw [nameWithin_succ, hq', Option.bind_some]
    have hlive : ∀ t n, m.nameWithin rules fuel t = some n → ∃ q, m.property? t = some q := by
      intro t n ht
      cases fuel with
      | zero => simp [Model.nameWithin] at ht
      | succ fuel =>
        rw [nameWithin_succ, Option.bind_eq_some_iff] at ht
        exact ⟨_, ht.choose_spec.1⟩
    have hmem := mem_of_property? hm hq
    have hdecl := hres.declaredName?
    unfold nameOf at h ⊢
    rw [hdecl]
    split at h
    · exact h
    -- the name is derived, and so the reference behind it is resolved in `m` already
    · cases hk : q.kind with
      | regular | composition => simp [hk] at h
      | association a =>
        simp only [hk] at h
        obtain ⟨target, htarget, h⟩ := Option.bind_eq_some_iff.mp h
        obtain ⟨c, hc, hcls⟩ := Option.bind_eq_some_iff.mp htarget
        obtain ⟨key, hkey, rfl⟩ := Option.map_eq_some_iff.mp h
        have hsame : q'.kind = q.kind := by
          cases hap : a.property with
          | none =>
            generalize q'.kind = k' at hres
            rw [hk] at hres ⊢
            cases hres with
            | refl => rfl
            | association id ha _ => exact absurd (hap.symm.trans ha) (by simp)
          | some r =>
            obtain ⟨t, ht, _⟩ := Option.bind_eq_some_iff.mp hkey
            simp only [keyOf, hap] at ht
            have hl : q.kind.lookup? = some (a.association, r) := by
              simp [hk, PropertyKind.lookup?, hap]
            exact hres.lookup? hl ht
        have hcls' := hr.classNames c
        rw [hcls, Option.map_some, Option.map_eq_some_iff] at hcls'
        obtain ⟨target', htarget', hname⟩ := hcls'
        simp only [hsame, hk, hc, Option.bind_some, htarget', hname,
          hr.key hm hm' ih hlive hmem hk hkey, Option.map_some]
      | propertyAlias a =>
        simp only [hk] at h
        obtain ⟨base, hbase, rfl⟩ := Option.map_eq_some_iff.mp h
        obtain ⟨t, ht, hname⟩ := Option.bind_eq_some_iff.mp hbase
        obtain ⟨r, hap, ht⟩ := Option.bind_eq_some_iff.mp ht
        have hl : q.kind.lookup? = some (a.cls, r) := by simp [hk, PropertyKind.lookup?, hap]
        have hsame := hres.lookup? hl ht
        obtain ⟨x, hx⟩ := hlive t base hname
        obtain ⟨x', hx', hresx⟩ := hr.targets q hmem _ r t x hl ht hx
        have hcls : ∀ c : Option ClassId, (c.bind m'.cls?).map (·.name.value)
            = (c.bind m.cls?).map (·.name.value) := by
          intro c
          cases c with
          | none => rfl
          | some c => exact hr.classNames c
        simp only [hsame, hk, hap, Option.bind_some, ht, hcls,
          ih t t x x' base hx hx' hresx hname, Option.map_some]

end Model

end EntityModel
