import EntityModel.Proofs.Locality.Columns
import EntityModel.Proofs.Locality.LinkedParts
import EntityModel.Proofs.Naming.Chains

/-!
# Types of a part

The type of a property is made of domains, and domains are seen everywhere: a file need not use the
file that declares them.  So the types of a part are its own only as far as the domains are that
they are made of (`Model.TypedBy`).  In two models linked without errors that have the same part
over a closed set of files (`Alongside`) the chains of properties are the same, the domains found
along them go by the same names (`Alongside.effective`), and types are equal where those domains are
declared alike (`Alongside.typeName`).
-/

namespace EntityModel

open Naming Linking Relation

/-! ### Domains declared alike -/

/-- The domains have one name, the same types, and the same words for other domains. -/
structure Domain.Alike (d d' : Domain) : Prop where
  name : d'.name.value = d.name.value
  type : ∀ language, d'.type? language = d.type? language
  generated : d'.autoGeneratedValue = d.autoGeneratedValue
  words : d'.asDomains.map (fun x => (x.1, x.2.text)) = d.asDomains.map fun x => (x.1, x.2.text)

theorem lookup_map_snd {α β : Type} (g : α → β) (l : List (String × α)) (k : String) :
    (l.map fun x => (x.1, g x.2)).lookup k = (l.lookup k).map g := by
  induction l with
  | nil => rfl
  | cons x rest ih =>
    obtain ⟨w, a⟩ := x
    rw [List.map_cons, List.lookup_cons, List.lookup_cons, ih]
    cases k == w <;> rfl

theorem Domain.Alike.lookup {d d' : Domain} (h : d.Alike d') (word : String) :
    (d'.asDomains.lookup word).map Reference.text
      = (d.asDomains.lookup word).map Reference.text := by
  rw [← lookup_map_snd, ← lookup_map_snd, h.words]

theorem rel_bind {α α' β β' : Type} {R : α → α' → Prop} {S : β → β' → Prop} {a : Option α}
    {a' : Option α'} {f : α → Option β} {f' : α' → Option β'} (h : Option.Rel R a a')
    (hf : ∀ x x', a = some x → R x x' → Option.Rel S (f x) (f' x')) :
    Option.Rel S (a.bind f) (a'.bind f') := by
  cases h with
  | none => exact .none
  | some hxx' => exact hf _ _ rfl hxx'

def Property.domain? (p : Property) : Option DomainReference :=
  match p.kind with
  | .regular r => some r.domain
  | .composition c => c.domain
  | _ => none

theorem mem_propertyReferences_of_domain? {p : Property} {r : DomainReference}
    (h : p.domain? = some r) :
    EntityReference.domain r ∈ propertyReferences p := by
  unfold Property.domain? at h
  unfold propertyReferences
  cases hk : p.kind <;> simp_all

namespace Model

variable {m m' : Model} {K : FileId → Bool} {rules : NamingRules}

structure DomainsFound (m : Model) : Prop where
  apart : m.DomainsApart
  property : ∀ p ∈ m.properties, ∀ r, EntityReference.domain r ∈ propertyReferences p →
    r.target = findDomain m r.text
  asDomain : ∀ d ∈ m.domains, ∀ x ∈ d.asDomains, x.2.target = findDomain m x.2.text

theorem DomainsFound.inj (h : m.DomainsFound) {d e : Domain} (hd : d ∈ m.domains)
    (he : e ∈ m.domains) (hname : d.name.value = e.name.value) : d = e :=
  List.inj_on_of_nodup_map h.apart hd he hname

theorem name_of_findDomain (hm : m.Numbered) {d : Domain} (hd : d ∈ m.domains) {name : String}
    (h : findDomain m name = some d.id) : d.name.value = name := by
  obtain ⟨e, he, hid⟩ := Option.map_eq_some_iff.mp h
  have hmem : e ∈ m.domains := List.mem_of_find?_eq_some he
  have hfound : m.domain? e.id = some e := hm.domain?_iff.mpr ⟨hmem, rfl⟩
  rw [hid, hm.domain?_iff.mpr ⟨hd, rfl⟩] at hfound
  rw [Option.some.inj hfound]
  simpa using List.find?_some he

theorem Whole.exists_domain (hm : m.Whole) {p : Property} (hp : p ∈ m.properties)
    {r : DomainReference} (h : p.domain? = some r) : ∃ d ∈ m.domains, r.target = some d.id := by
  unfold Property.domain? at h
  cases hk : p.kind with
  | regular x =>
    obtain rfl : x.domain = r := by simpa [hk] using h
    exact hm.domain p hp x hk
  | composition c => exact hm.around p hp c hk r (by simpa [hk] using h)
  | association | propertyAlias => simp [hk] at h

/-! ### Chains -/

/-- The chain of the first property comes by the second. -/
def Reaches (m : Model) : PropertyId → PropertyId → Prop :=
  ReflTransGen fun a b => ∃ p, m.property? a = some p ∧ m.nextOnChain p = some b

/-- The domain is met on the way to the type of the property. -/
def TypedBy (m : Model) (id : PropertyId) (d : DomainId) : Prop :=
  ∃ q, m.Reaches id q ∧ (m.baseDomain q = some d ∨ m.effectiveDomain q = some d)

theorem TypedBy.of_reaches {id q : PropertyId} {d : DomainId} (hq : m.Reaches id q)
    (h : m.TypedBy q d) :
    m.TypedBy id d := by
  obtain ⟨t, ht, hd⟩ := h
  exact ⟨t, hq.trans ht, hd⟩

theorem reaches_of_leafWithin {fuel : Nat} : ∀ {id q : PropertyId}, m.leafWithin fuel id = some q →
    m.Reaches id q := by
  induction fuel with
  | zero => intro id q h; exact absurd h (by simp [leafWithin])
  | succ fuel ih =>
    intro id q h
    cases hp : m.property? id with
    | none => simp [leafWithin, hp] at h
    | some p =>
      rw [leafWithin_succ hp] at h
      split at h
      · rw [Option.some.inj h]
        exact .refl
      · obtain ⟨next, hnext, h⟩ := Option.bind_eq_some_iff.mp h
        exact .head ⟨p, hp, hnext⟩ (ih h)

theorem baseFrom_eq (effective : PropertyId → Option DomainId) (p : Property) :
    m.baseFrom effective p
    = if endsChain p then p.domain?.bind Reference.target
      else (m.nextOnChain p).bind effective := by
  unfold baseFrom endsChain Property.domain?
  cases p.kind <;> rfl

/-! ### Chains of a part -/

theorem endsChain_plain (p : Property) : endsChain p.plain = endsChain p := by
  obtain ⟨id, l, k⟩ := p
  cases k <;> rfl

theorem asName_plain (p : Property) : asName p.plain = asName p := by
  obtain ⟨id, l, k⟩ := p
  cases k <;> rfl

theorem domain?_plain (p : Property) :
    p.plain.domain?.map Reference.text = p.domain?.map Reference.text := by
  obtain ⟨id, l, k⟩ := p
  cases k with
  | composition c => cases hd : c.domain
    <;> simp [Property.plain, PropertyKind.plain, Property.domain?, hd]; rfl
  | _ => rfl

theorem Closed.nextOnChain (h : m.Closed K) {settled : Bool} (hs : Sound rules settled m)
    {p : Property} (hp : p ∈ m.properties) (hK : K p.owner.file = true) :
    (m.part K).nextOnChain p.plain = m.nextOnChain p ∧
      ∀ t, m.nextOnChain p = some t → K t.owner.file = true := by
  unfold Model.nextOnChain
  rw [show p.plain.kind = p.kind.plain from rfl]
  cases hk : p.kind with
  | regular | composition => exact ⟨rfl, fun t ht => absurd ht (by simp)⟩
  | association a => exact h.keyOf hs hp hK hk
  | propertyAlias a =>
    refine ⟨rfl, fun t ht => ?_⟩
    obtain ⟨r, hr, htarget⟩ := Option.bind_eq_some_iff.mp ht
    exact h.target_file hs hp hK (c := a.cls) (r := r)
      (by simp [hk, PropertyKind.lookup?, hr]) htarget

theorem Closed.leafWithin (h : m.Closed K) {settled : Bool} (hs : Sound rules settled m)
    (fuel : Nat) :
    ∀ id : PropertyId, K id.owner.file = true →
      (m.part K).leafWithin fuel id = m.leafWithin fuel id ∧
        ∀ q, m.leafWithin fuel id = some q → K q.owner.file = true := by
  induction fuel with
  | zero => exact fun id _ => ⟨rfl, fun q hq => absurd hq (by simp [Model.leafWithin])⟩
  | succ fuel ih =>
    intro id hK
    have hpart := property?_part (m := m) hK
    cases hp : m.property? id with
    | none =>
      rw [hp, Option.map_none] at hpart
      refine ⟨?_, fun q hq => absurd hq (by simp [Model.leafWithin, hp])⟩
      simp [Model.leafWithin, hp, hpart]
    | some p =>
      rw [hp, Option.map_some] at hpart
      have hmem := mem_of_property? hs.numbered hp
      have howner : K p.owner.file = true := by rwa [hs.numbered.owner_of_property? hp]
      obtain ⟨hnext, hfile⟩ := h.nextOnChain hs hmem howner
      rw [leafWithin_succ hp, leafWithin_succ hpart, endsChain_plain, hnext]
      split
      · exact ⟨rfl, fun q hq => Option.some.inj hq ▸ hK⟩
      · cases ht : m.nextOnChain p with
        | none => exact ⟨rfl, fun q hq => absurd hq (by simp)⟩
        | some t => exact ih t (hfile t ht)

/-! ### Types -/

/-- The type of a key, once the property and its class are known. -/
theorem enumTypeName_eq {id : PropertyId} {p : Property} {r : RegularProperty}
    {C : ClassId} {c : Class}
    (hp : m.property? id = some p) (hk : p.kind = .regular r) (hC : id.owner.cls? = some C)
    (hc : m.cls? C = some c) : m.enumTypeName rules id
      = if !r.primaryKey || !c.isEnum then none
        else (r.domain.target.bind m.domain?).bind fun d =>
          if d.autoGeneratedValue then none
          else some (c.name.value ++ m.propertyName rules id) := by
  simp only [Model.enumTypeName, hp, hk, hC, hc, bind, Option.bind_some]
  split
  · rfl
  · cases r.domain.target with
    | none => rfl
    | some t => rfl

theorem enumTypeName_of_not_regular {id : PropertyId} {p : Property} (hp : m.property? id = some p)
    (hk : ∀ r, p.kind ≠ .regular r) : m.enumTypeName rules id = none := by
  simp only [Model.enumTypeName, hp, bind, Option.bind_some]
  cases id.owner.cls? with
  | none => rfl
  | some C =>
    simp only [Option.bind_some]
    cases m.cls? C with
    | none => rfl
    | some c => simp only [Option.bind_some]

theorem typeName_of_composition {id : PropertyId} {p : Property} {c : CompositionProperty}
    (hp : m.property? id = some p) (hk : p.kind = .composition c) (language : String) :
    m.typeName rules id language = (c.composition.target.bind m.cls?).map fun target =>
      match ((p.domain?.bind Reference.target).bind m.domain?).bind (·.type? language) with
      | some outer => wrap outer target.name.value
      | none => target.name.value := by
  simp only [Model.typeName, hp, hk, bind, Option.bind_some, Property.domain?]
  cases c.composition.target with
  | none => rfl
  | some C =>
    simp only [Option.bind_some]
    cases m.cls? C <;> rfl

def innerType (m : Model) (rules : NamingRules) (leaf : PropertyId) (base : DomainId)
    (language : String) :
    Option String :=
  match m.enumTypeName rules leaf with
  | some name => some name
  | none => (m.domain? base).bind (·.type? language)

theorem typeName_of_field {id : PropertyId} {p : Property} (hp : m.property? id = some p)
    (hk : ∀ c, p.kind ≠ .composition c) (language : String) : m.typeName rules id language
      = (m.leafProperty id).bind fun leaf => (m.baseDomain leaf).bind fun base =>
          (m.innerType rules leaf base language).bind fun inner =>
              (m.effectiveDomain id).bind fun effective =>
            if effective == base then some inner
            else ((m.domain? effective).bind (·.type? language)).map fun outer =>
                wrap outer inner := by
  have houter : ∀ (effective : DomainId) (inner : String), ((m.domain? effective).bind fun d =>
      (d.type? language).bind fun outer => pure (wrap outer inner))
      = ((m.domain? effective).bind (·.type? language)).map fun outer => wrap outer inner := by
    intro effective inner
    cases m.domain? effective with
    | none => rfl
    | some d => cases hd : d.type? language <;> simp [hd]
  cases hkind : p.kind with
  | composition c => exact absurd hkind (hk c)
  | regular | association | propertyAlias =>
    simp only [Model.typeName, hp, hkind, bind, Option.bind_some, innerType]
    refine Option.bind_congr fun leaf _ => Option.bind_congr fun base _ => ?_
    cases m.enumTypeName rules leaf with
    | some name => simp only [Option.bind_some, houter]; rfl
    | none => simp only [houter]; rfl

/-! ### Two models with one part -/

/-- Both models are linked without errors, and have the same part over a set that is closed in
both. -/
structure Alongside (K : FileId → Bool) (rules : NamingRules) (m m' : Model) : Prop where
  part : m.part K = m'.part K
  closed : m.Closed K
  closed' : m'.Closed K
  sound : Sound rules false m
  sound' : Sound rules false m'
  whole : m.Whole
  whole' : m'.Whole
  found : m.DomainsFound
  found' : m'.DomainsFound

/-- Every domain on the way to the type of the property is declared alike in the second model. -/
def KeepsDomains (m m' : Model) (id : PropertyId) : Prop :=
  ∀ d ∈ m.domains, m.TypedBy id d.id → ∃ d' ∈ m'.domains, d.Alike d'

theorem KeepsDomains.of_reaches {id q : PropertyId} (h : KeepsDomains m m' id)
    (hq : m.Reaches id q) :
    KeepsDomains m m' q := fun d hd ht => h d hd (ht.of_reaches hq)

def Counterparts (m m' : Model) (id id' : DomainId) : Prop :=
  ∃ d ∈ m.domains, ∃ d' ∈ m'.domains, d.id = id ∧ d'.id = id' ∧ d.Alike d'

namespace Alongside

theorem property? (h : Alongside K rules m m') {id : PropertyId} (hK : K id.owner.file = true) :
    (m'.property? id).map Property.plain = (m.property? id).map Property.plain := by
  rw [← property?_part hK, ← property?_part hK, h.part]

theorem cls? (h : Alongside K rules m m') {C : ClassId} (hC : K C.file = true) :
    (m'.cls? C).map Class.plain = (m.cls? C).map Class.plain := by
  rw [← cls?_part hC, ← cls?_part hC, h.part]

theorem propertyName? (h : Alongside K rules m m') {id : PropertyId} (hK : K id.owner.file = true) :
    m'.propertyName? rules id = m.propertyName? rules id := by
  rw [← h.closed.propertyName? h.sound hK, ← h.closed'.propertyName? h.sound' hK, h.part]

theorem columnName (h : Alongside K rules m m') {id : PropertyId} (hK : K id.owner.file = true) :
    m'.columnName rules id none = m.columnName rules id none := by
  rw [← h.closed.columnName h.sound hK, ← h.closed'.columnName h.sound' hK, h.part]

theorem leafProperty (h : Alongside K rules m m') {id : PropertyId} (hK : K id.owner.file = true) :
    m'.leafProperty id = m.leafProperty id := by
  have hleaf := (h.closed.leafWithin h.sound (chainLimit + 1) id hK).1
  have hleaf' := (h.closed'.leafWithin h.sound' (chainLimit + 1) id hK).1
  rw [Model.leafProperty, Model.leafProperty, ← hleaf, ← hleaf', h.part]

theorem exists_property (h : Alongside K rules m m') {id : PropertyId} (hK : K id.owner.file = true)
    {p : Property} (hp : m.property? id = some p) :
    ∃ p', m'.property? id = some p' ∧ p'.plain = p.plain ∧ p ∈ m.properties ∧ p' ∈ m'.properties ∧
      K p.owner.file = true := by
  have hsame := h.property? hK
  rw [hp, Option.map_some, Option.map_eq_some_iff] at hsame
  obtain ⟨p', hp', he⟩ := hsame
  refine ⟨p', hp', he, mem_of_property? h.sound.numbered hp,
    mem_of_property? h.sound'.numbered hp', ?_⟩
  rwa [h.sound.numbered.owner_of_property? hp]

theorem nextOnChain (h : Alongside K rules m m') {p p' : Property} (he : p'.plain = p.plain)
    (hp : p ∈ m.properties) (hp' : p' ∈ m'.properties) (hK : K p.owner.file = true) :
    m'.nextOnChain p' = m.nextOnChain p := by
  have hid : p'.plain.id = p.plain.id := congrArg Property.id he
  have hK' : K p'.owner.file = true := by rwa [Property.owner, show p'.id = p.id from hid]
  rw [← (h.closed.nextOnChain h.sound hp hK).1,
    ← (h.closed'.nextOnChain h.sound' hp' hK').1, h.part, he]

/-! ### Domains -/

theorem target (h : Alongside K rules m m') {r r' : DomainReference} (ht : r'.text = r.text)
    (hr : r.target = findDomain m r.text) (hr' : r'.target = findDomain m' r'.text)
    (hknown : ∃ d ∈ m.domains, r.target = some d.id)
    (hknown' : ∃ d ∈ m'.domains, r'.target = some d.id)
    (halike : ∀ d ∈ m.domains, r.target = some d.id → ∃ d' ∈ m'.domains, d.Alike d') :
    Option.Rel (Counterparts m m') r.target r'.target := by
  obtain ⟨d, hd, hid⟩ := hknown
  obtain ⟨d', hd', hid'⟩ := hknown'
  obtain ⟨e, he, hde⟩ := halike d hd hid
  have hname := name_of_findDomain h.sound.numbered hd (hr.symm.trans hid)
  have hname' := name_of_findDomain h.sound'.numbered hd' (hr'.symm.trans hid')
  obtain rfl : e = d' :=
    h.found'.inj he hd' (hde.name.trans (hname.trans (ht.symm.trans hname'.symm)))
  rw [hid, hid']
  exact .some ⟨d, hd, e, he, rfl, rfl, hde⟩

theorem domainOf (h : Alongside K rules m m') {id : PropertyId} {p p' : Property}
    (he : p'.plain = p.plain)
    (hp : m.property? id = some p) (hp' : m'.property? id = some p') (hends : endsChain p = true)
    (hkeeps : KeepsDomains m m' id) :
    Option.Rel (Counterparts m m') (p.domain?.bind Reference.target)
    (p'.domain?.bind Reference.target) := by
  have hmem := mem_of_property? h.sound.numbered hp
  have hmem' := mem_of_property? h.sound'.numbered hp'
  have htext : p'.domain?.map Reference.text = p.domain?.map Reference.text := by
    rw [← domain?_plain p', he, domain?_plain]
  cases hr : p.domain? with
  | none =>
    rw [hr, Option.map_none, Option.map_eq_none_iff] at htext
    rw [htext]
    exact .none
  | some r =>
    rw [hr, Option.map_some, Option.map_eq_some_iff] at htext
    obtain ⟨r', hr', ht⟩ := htext
    rw [hr', Option.bind_some, Option.bind_some]
    refine h.target ht (h.found.property p hmem r (mem_propertyReferences_of_domain? hr))
      (h.found'.property p' hmem' r' (mem_propertyReferences_of_domain? hr'))
      (h.whole.exists_domain hmem hr) (h.whole'.exists_domain hmem' hr') fun d hd hid => ?_
    refine hkeeps d hd ⟨id, .refl, Or.inl ?_⟩
    rw [baseDomain, hp, Option.bind_some, baseFrom_eq, if_pos hends, hr]
    exact hid

theorem applyAs (h : Alongside K rules m m') {p p' : Property} (he : p'.plain = p.plain)
    {base base' : DomainId} (hbase : Counterparts m m' base base')
    (halike : ∀ d ∈ m.domains, m.applyAs p base = some d.id → ∃ d' ∈ m'.domains, d.Alike d') :
    Option.Rel (Counterparts m m') (m.applyAs p base) (m'.applyAs p' base') := by
  have has : asName p' = asName p := by rw [← asName_plain p', he, asName_plain]
  obtain ⟨d, hmem, d', hmem', rfl, rfl, hsame⟩ := hbase
  have hfound := h.sound.numbered.domain?_iff.mpr ⟨hmem, rfl⟩
  have hfound' := h.sound'.numbered.domain?_iff.mpr ⟨hmem', rfl⟩
  unfold Model.applyAs at halike ⊢
  rw [has]
  cases hword : asName p with
  | none => exact .some ⟨d, hmem, d', hmem', rfl, rfl, hsame⟩
  | some word =>
    have hlookup := hsame.lookup word.value
    simp only [hword, hfound, hfound', bind, Option.bind_some] at halike ⊢
    cases hr : d.asDomains.lookup word.value with
    | none =>
      rw [hr, Option.map_none, Option.map_eq_none_iff] at hlookup
      rw [hlookup]
      exact .none
    | some r =>
      rw [hr, Option.map_some, Option.map_eq_some_iff] at hlookup
      obtain ⟨r', hr', ht⟩ := hlookup
      rw [hr', Option.bind_some, Option.bind_some]
      refine h.target ht (h.found.asDomain d hmem _ (mem_of_lookup hr))
        (h.found'.asDomain d' hmem' _ (mem_of_lookup hr'))
          (h.whole.asDomains d hmem _ (mem_of_lookup hr))
            (h.whole'.asDomains d' hmem' _ (mem_of_lookup hr'))
        fun e hem hid => halike e hem ?_
      rw [hr]
      exact hid

/-- The domains before the own `as`, if the domains of the next properties are counterparts. -/
theorem baseFrom (h : Alongside K rules m m') {id : PropertyId} (hK : K id.owner.file = true)
    {p p' : Property} (he : p'.plain = p.plain) (hp : m.property? id = some p)
    (hp' : m'.property? id = some p')
    (hkeeps : KeepsDomains m m' id) {effective effective' : PropertyId → Option DomainId}
    (hnext : ∀ q, K q.owner.file = true → KeepsDomains m m' q →
      Option.Rel (Counterparts m m') (effective q) (effective' q)) :
    Option.Rel (Counterparts m m') (m.baseFrom effective p) (m'.baseFrom effective' p') := by
  have hmem := mem_of_property? h.sound.numbered hp
  have hmem' := mem_of_property? h.sound'.numbered hp'
  have howner : K p.owner.file = true := by rwa [h.sound.numbered.owner_of_property? hp]
  rw [baseFrom_eq, baseFrom_eq, ← endsChain_plain p', he, endsChain_plain]
  split
  next hends => exact h.domainOf he hp hp' hends hkeeps
  next hgoes =>
    rw [h.nextOnChain he hmem hmem' howner]
    cases ht : m.nextOnChain p with
    | none => exact .none
    | some t =>
      exact hnext t ((h.closed.nextOnChain h.sound hmem howner).2 t ht)
        (hkeeps.of_reaches (.single ⟨p, hp, ht⟩))

theorem effectiveWithin (h : Alongside K rules m m') (fuel : Nat) : fuel ≤ chainLimit + 1 →
    ∀ id : PropertyId, K id.owner.file = true → KeepsDomains m m' id →
      Option.Rel (Counterparts m m') (m.effectiveWithin fuel id) (m'.effectiveWithin fuel id) := by
  induction fuel with
  | zero => exact fun _ _ _ _ => .none
  | succ fuel ih =>
    intro hfuel id hK hkeeps
    cases hp : m.property? id with
    | none =>
      have hnone := h.property? hK
      rw [hp, Option.map_none, Option.map_eq_none_iff] at hnone
      simp only [Model.effectiveWithin, hp, hnone]
      exact .none
    | some p =>
      obtain ⟨p', hp', he, -⟩ := h.exists_property hK hp
      have hbase := h.baseFrom hK he hp hp' hkeeps (ih (by omega))
      rw [effectiveWithin_succ hp, effectiveWithin_succ hp']
      refine rel_bind hbase fun base base' hb hsame => h.applyAs he hsame fun d hd happly => ?_
      refine hkeeps d hd ⟨id, .refl, Or.inr (effectiveWithin_mono hfuel ?_)⟩
      rw [effectiveWithin_succ hp, hb, Option.bind_some, happly]

theorem effectiveDomain (h : Alongside K rules m m') {id : PropertyId} (hK : K id.owner.file = true)
    (hkeeps : KeepsDomains m m' id) :
    Option.Rel (Counterparts m m') (m.effectiveDomain id) (m'.effectiveDomain id) :=
  h.effectiveWithin _ le_rfl id hK hkeeps

theorem baseDomain (h : Alongside K rules m m') {id : PropertyId} (hK : K id.owner.file = true)
    (hkeeps : KeepsDomains m m' id) :
    Option.Rel (Counterparts m m') (m.baseDomain id) (m'.baseDomain id) := by
  unfold Model.baseDomain
  cases hp : m.property? id with
  | none =>
    have hnone := h.property? hK
    rw [hp, Option.map_none, Option.map_eq_none_iff] at hnone
    rw [hnone]
    exact .none
  | some p =>
    obtain ⟨p', hp', he, -⟩ := h.exists_property hK hp
    rw [hp', Option.bind_some, Option.bind_some]
    exact h.baseFrom hK he hp hp' hkeeps (h.effectiveWithin chainLimit (Nat.le_succ _))

/-! ### Equal types -/

theorem className (h : Alongside K rules m m') {C : ClassId} (hC : K C.file = true) :
    (m'.cls? C).map (·.name.value) = (m.cls? C).map (·.name.value) := by
  have hsame := congrArg (Option.map fun c : Class => c.name.value) (h.cls? hC)
  rw [Option.map_map, Option.map_map] at hsame
  exact hsame

theorem type?_of_counterparts (h : Alongside K rules m m') {base base' : DomainId}
    (hb : Counterparts m m' base base') (language : String) :
    (m'.domain? base').bind (·.type? language) = (m.domain? base).bind (·.type? language) := by
  obtain ⟨d, hd, d', hd', rfl, rfl, hsame⟩ := hb
  rw [h.sound.numbered.domain?_iff.mpr ⟨hd, rfl⟩, h.sound'.numbered.domain?_iff.mpr ⟨hd', rfl⟩]
  exact hsame.type language

theorem counterparts_inj (h : Alongside K rules m m') {a a' b b' : DomainId}
    (ha : Counterparts m m' a a') (hb : Counterparts m m' b b') : (b' == a') = (b == a) := by
  obtain ⟨d, hd, d', hd', rfl, rfl, hsame⟩ := ha
  obtain ⟨e, he, e', he', rfl, rfl, hsame'⟩ := hb
  have hid : ∀ {n : Model}, n.Numbered → ∀ {x y : Domain}, x ∈ n.domains → y ∈ n.domains →
      x.id = y.id → x = y := by
    intro n hn x y hx hy hxy
    have hfound := hn.domain?_iff.mpr ⟨hx, hxy⟩
    rw [hn.domain?_iff.mpr ⟨hy, rfl⟩] at hfound
    exact (Option.some.inj hfound).symm
  rw [Bool.eq_iff_iff, beq_iff_eq, beq_iff_eq]
  constructor
  · intro hids
    obtain rfl := hid h.sound'.numbered he' hd' hids
    rw [h.found.inj he hd (hsame'.name.symm.trans hsame.name)]
  · intro hids
    obtain rfl := hid h.sound.numbered he hd hids
    rw [h.found'.inj he' hd' (hsame'.name.trans hsame.name.symm)]

theorem regular_of_plain {p p' : Property} (he : p'.plain = p.plain) {r : RegularProperty}
    (hk : p.kind = .regular r) :
    ∃ r' : RegularProperty, p'.kind = .regular r' ∧ r'.primaryKey = r.primaryKey := by
  have hkind : p'.kind.plain = p.kind.plain := congrArg Property.kind he
  rw [hk] at hkind
  cases hk' : p'.kind with
  | regular r' =>
    rw [hk'] at hkind
    simp only [PropertyKind.plain, PropertyKind.regular.injEq, RegularProperty.mk.injEq] at hkind
    exact ⟨r', rfl, hkind.2.2.2.1⟩
  | _ => rw [hk'] at hkind; exact absurd hkind (by simp [PropertyKind.plain])

theorem enumTypeName (h : Alongside K rules m m') {id : PropertyId} (hK : K id.owner.file = true)
    (hkeeps : KeepsDomains m m' id) : m'.enumTypeName rules id = m.enumTypeName rules id := by
  cases hp : m.property? id with
  | none =>
    have hnone := h.property? hK
    rw [hp, Option.map_none, Option.map_eq_none_iff] at hnone
    simp [Model.enumTypeName, hp, hnone]
  | some p =>
    obtain ⟨p', hp', he, -⟩ := h.exists_property hK hp
    by_cases hregular : ∃ r, p.kind = .regular r
    · obtain ⟨r, hk⟩ := hregular
      obtain ⟨r', hk', hkey⟩ := regular_of_plain he hk
      cases hC : id.owner.cls? with
      | none => simp [Model.enumTypeName, hp, hp', hC]
      | some C =>
        have hcls := h.cls? (C := C) (owner_of_cls? hC ▸ hK)
        cases hc : m.cls? C with
        | none =>
          rw [hc, Option.map_none, Option.map_eq_none_iff] at hcls
          simp [Model.enumTypeName, hp, hp', hC, hc, hcls]
        | some c =>
          rw [hc, Option.map_some, Option.map_eq_some_iff] at hcls
          obtain ⟨c', hc', hplain⟩ := hcls
          have henum : c'.plain.isEnum = c.plain.isEnum := congrArg Class.isEnum hplain
          have hname : c'.plain.name = c.plain.name := congrArg Class.name hplain
          have hdomain := h.domainOf he hp hp' (by rw [endsChain, hk]) hkeeps
          rw [Property.domain?, hk, Property.domain?, hk', Option.bind_some,
            Option.bind_some] at hdomain
          rw [enumTypeName_eq hp hk hC hc, enumTypeName_eq hp' hk' hC hc', hkey,
            show c'.isEnum = c.isEnum from henum, show c'.name = c.name from hname,
            Model.propertyName, Model.propertyName, h.propertyName? hK]
          split
          · rfl
          · generalize r.domain.target = t at hdomain ⊢
            generalize r'.domain.target = t' at hdomain ⊢
            cases hdomain with
            | none => rfl
            | some hsame =>
              obtain ⟨d, hd, d', hd', rfl, rfl, halike⟩ := hsame
              simp only [Option.bind_some, h.sound.numbered.domain?_iff.mpr ⟨hd, rfl⟩,
                h.sound'.numbered.domain?_iff.mpr ⟨hd', rfl⟩, halike.generated]
    · rw [enumTypeName_of_not_regular hp fun r hk => hregular ⟨r, hk⟩,
        enumTypeName_of_not_regular hp' fun r hk => ?_]
      obtain ⟨r', hk', -⟩ := regular_of_plain he.symm hk
      exact hregular ⟨r', hk'⟩

theorem innerType (h : Alongside K rules m m') {leaf : PropertyId} (hK : K leaf.owner.file = true)
    (hkeeps : KeepsDomains m m' leaf) {base base' : DomainId} (hb : Counterparts m m' base base')
    (language : String) :
    m'.innerType rules leaf base' language = m.innerType rules leaf base language := by
  unfold Model.innerType
  rw [h.enumTypeName hK hkeeps, h.type?_of_counterparts hb]

theorem composition_of_plain {p p' : Property} (he : p'.plain = p.plain) {c : CompositionProperty}
    (hk : p.kind = .composition c) :
    ∃ c' : CompositionProperty, p'.kind = .composition c' ∧ c'.composition = c.composition := by
  have hkind : p'.kind.plain = p.kind.plain := congrArg Property.kind he
  rw [hk] at hkind
  cases hk' : p'.kind with
  | composition c' =>
    rw [hk'] at hkind
    simp only [PropertyKind.plain, PropertyKind.composition.injEq,
      CompositionProperty.mk.injEq] at hkind
    exact ⟨c', rfl, hkind.2.1⟩
  | _ => rw [hk'] at hkind; exact absurd hkind (by simp [PropertyKind.plain])

/-- **A property of the set has the same types in both models**, if the domains that they are made
of are declared alike. -/
theorem typeName (h : Alongside K rules m m') {id : PropertyId} (hK : K id.owner.file = true)
    (hkeeps : KeepsDomains m m' id) (language : String) :
    m'.typeName rules id language = m.typeName rules id language := by
  cases hp : m.property? id with
  | none =>
    have hnone := h.property? hK
    rw [hp, Option.map_none, Option.map_eq_none_iff] at hnone
    simp [Model.typeName, hp, hnone]
  | some p =>
    obtain ⟨p', hp', he, hmem, -, howner⟩ := h.exists_property hK hp
    by_cases hcomposition : ∃ c, p.kind = .composition c
    · obtain ⟨c, hk⟩ := hcomposition
      obtain ⟨c', hk', hcls⟩ := composition_of_plain he hk
      rw [typeName_of_composition hp hk, typeName_of_composition hp' hk', hcls]
      have hdomain := h.domainOf he hp hp' (by rw [endsChain, hk]) hkeeps
      generalize p.domain?.bind Reference.target = t at hdomain ⊢
      generalize p'.domain?.bind Reference.target = t' at hdomain ⊢
      have houter : (t'.bind m'.domain?).bind (·.type? language)
        = (t.bind m.domain?).bind (·.type? language) := by
        cases hdomain with
        | none => rfl
        | some hsame => exact h.type?_of_counterparts hsame language
      rw [houter]
      cases hC : c.composition.target with
      | none => rfl
      | some C =>
        have hname :=
          h.className (h.closed.pointsTo p hmem howner C (by rw [Property.pointsTo, hk]; exact hC))
        rw [Option.bind_some, Option.bind_some]
        cases hc : m.cls? C with
        | none =>
          rw [hc, Option.map_none, Option.map_eq_none_iff] at hname
          rw [hname]
        | some c =>
          rw [hc, Option.map_some, Option.map_eq_some_iff] at hname
          obtain ⟨c', hc', hname⟩ := hname
          simp only [hc', Option.map_some, hname]
    · have hfield : ∀ c, p.kind ≠ .composition c := fun c hk => hcomposition ⟨c, hk⟩
      have hfield' : ∀ c, p'.kind ≠ .composition c := fun c hk' => by
        obtain ⟨c', hk, -⟩ := composition_of_plain he.symm hk'
        exact hfield c' hk
      rw [typeName_of_field hp hfield, typeName_of_field hp' hfield', h.leafProperty hK]
      cases hleaf : m.leafProperty id with
      | none => rfl
      | some leaf =>
        have hreach := reaches_of_leafWithin hleaf
        have hleafK := (h.closed.leafWithin h.sound _ id hK).2 leaf hleaf
        have hbase := h.baseDomain hleafK (hkeeps.of_reaches hreach)
        have heffective := h.effectiveDomain hK hkeeps
        rw [Option.bind_some, Option.bind_some]
        generalize m.baseDomain leaf = base at hbase ⊢
        generalize m'.baseDomain leaf = base' at hbase ⊢
        generalize m.effectiveDomain id = effective at heffective ⊢
        generalize m'.effectiveDomain id = effective' at heffective ⊢
        cases hbase with
        | none => rfl
        | some hb =>
          rw [Option.bind_some, Option.bind_some, h.innerType hleafK (hkeeps.of_reaches hreach) hb]
          refine Option.bind_congr fun inner _ => ?_
          cases heffective with
          | none => rfl
          | some heff =>
            rw [Option.bind_some, Option.bind_some, h.counterparts_inj hb heff,
              h.type?_of_counterparts heff]

end Alongside

end Model

end EntityModel
