import EntityModel.Proofs.Linking.Names
import EntityModel.Proofs.Linking.Targets
import Mathlib.Data.List.Find

/-!
# Parts of a model

The part of a model over a set of files is what they declare, with domains left aside: those are
seen everywhere, so no set of files is on its own in that respect.  Where the files point nowhere
else (`Model.Closed`), everything but domains is found in the part as it is in the whole model:
declarations and properties under their ids (`cls?_part`, `property?_part`), the properties and the
key of a class (`Closed.classProperties`, `Closed.keyOf`), and names (`Closed.propertyName?`).
-/

namespace EntityModel

open Naming

/-! ### Leaving domains aside -/

def PropertyKind.plain : PropertyKind → PropertyKind
  | .regular p => .regular { p with domain := { p.domain with target := none } }
  | .composition p =>
    .composition { p with domain := p.domain.map fun r => { r with target := none } }
  | k => k

def Property.plain (p : Property) : Property := { p with kind := p.kind.plain }

def Class.plain (c : Class) : Class := { c with properties := c.properties.map Property.plain }

def Decorator.plain (d : Decorator) : Decorator :=
  { d with properties := d.properties.map Property.plain }

def Endpoint.plain (e : Endpoint) : Endpoint := e.mapParts (List.map Property.plain) Property.plain

/-- The file without its domains, its references to domains open; nor does it note what it does not
need. -/
def ModelFile.plain (f : ModelFile) : ModelFile :=
  { f.mapProperties Property.plain with domains := [], uselessImports := [] }

theorem declaredName?_plain (k : PropertyKind) : k.plain.declaredName? = k.declaredName? := by
  cases k <;> rfl

theorem isPrimaryKey_plain (p : Property) : p.plain.isPrimaryKey = p.isPrimaryKey := by
  obtain ⟨id, l, k⟩ := p
  cases k <;> rfl

theorem alias?_plain (p : Property) : p.plain.alias? = p.alias? := by
  obtain ⟨id, l, k⟩ := p
  cases k <;> rfl

theorem association?_plain (p : Property) : p.plain.association? = p.association? := by
  obtain ⟨id, l, k⟩ := p
  cases k <;> rfl

/-- A look-up of a property is one on the class that the property points to. -/
theorem pointsTo_of_lookup? {p : Property} {cls : ClassReference} {r : PropertyReference}
    (h : p.kind.lookup? = some (cls, r)) : p.pointsTo = cls.target := by
  obtain ⟨id, l, k⟩ := p
  cases k with
  | association a | propertyAlias a =>
    simp only [PropertyKind.lookup?, Option.map_eq_some_iff, Prod.mk.injEq] at h
    obtain ⟨_, _, rfl, _⟩ := h
    rfl
  | _ => simp [PropertyKind.lookup?] at h

namespace Model

/-- The files of the set, with domains left aside. -/
def part (K : FileId → Bool) (m : Model) : Model :=
  ⟨(m.files.filter fun f => K f.id).map ModelFile.plain⟩

/-- The files of the set point nowhere else: their classes and properties to classes and decorators
of files of the set. -/
structure Closed (K : FileId → Bool) (m : Model) : Prop where
  parents : ∀ c ∈ m.classes, K c.id.file = true → ∀ C, c.parent.bind Reference.target = some C →
    K C.file = true
  decorators : ∀ c ∈ m.classes, K c.id.file = true → ∀ u ∈ c.decorators, ∀ d,
    u.decorator.target = some d → K d.file = true
  pointsTo : ∀ p ∈ m.properties, K p.owner.file = true → ∀ C, p.pointsTo = some C → K C.file = true

variable {K : FileId → Bool} {m : Model}

/-- What is done to every file on its own is done to the files of the part. -/
theorem part_mapFiles {g g' : ModelFile → ModelFile} (hid : ∀ f, (g f).id = f.id)
    (h : ∀ f ∈ m.files, K f.id = true → (g f).plain = g' f.plain) :
    (m.mapFiles g).part K = (m.part K).mapFiles g' := by
  simp only [part, mapFiles, List.filter_map, List.map_map, Function.comp_def, hid, mk.injEq]
  refine List.map_congr_left fun f hf => ?_
  obtain ⟨hf, hK⟩ := List.mem_filter.mp hf
  exact h f hf hK

/-! ### Look-ups -/

theorem file?_part {id : FileId} (h : K id = true) :
    (m.part K).file? id = (m.file? id).map ModelFile.plain := by
  unfold file? part
  rw [List.find?_map, List.find?_filter]
  congr 2
  funext f
  by_cases he : f.id = id
  · simp [he, h, ModelFile.plain, ModelFile.mapProperties, ModelFile.mapLists]
  · simp [he, ModelFile.plain, ModelFile.mapProperties, ModelFile.mapLists]

theorem cls?_part {id : ClassId} (h : K id.file = true) :
    (m.part K).cls? id = (m.cls? id).map Class.plain := by
  unfold cls?
  rw [file?_part h]
  cases m.file? id.file with
  | none => rfl
  | some f => exact List.getElem?_map ..

theorem decorator?_part {id : DecoratorId} (h : K id.file = true) :
    (m.part K).decorator? id = (m.decorator? id).map Decorator.plain := by
  unfold decorator?
  rw [file?_part h]
  cases m.file? id.file with
  | none => rfl
  | some f => exact List.getElem?_map ..

theorem endpoint?_part {id : EndpointId} (h : K id.file = true) :
    (m.part K).endpoint? id = (m.endpoint? id).map Endpoint.plain := by
  unfold endpoint?
  rw [file?_part h]
  cases m.file? id.file with
  | none => rfl
  | some f => exact List.getElem?_map ..

theorem property?_part {id : PropertyId} (h : K id.owner.file = true) :
    (m.part K).property? id = (m.property? id).map Property.plain := by
  obtain ⟨o, i⟩ := id
  cases o with
  | cls c =>
    simp only [property?, ownedBy?, cls?_part (m := m) (K := K) h, bind]
    cases m.cls? c <;> simp [Class.plain]
  | decorator d =>
    simp only [property?, ownedBy?, decorator?_part (m := m) (K := K) h, bind]
    cases m.decorator? d <;> simp [Decorator.plain]
  | params e =>
    simp only [property?, ownedBy?, endpoint?_part (m := m) (K := K) h, bind]
    cases m.endpoint? e <;> simp [Endpoint.plain, Endpoint.mapParts]
  | returns e =>
    simp only [property?, endpoint?_part (m := m) (K := K) h]
    cases m.endpoint? e <;> simp [Endpoint.plain, Endpoint.mapParts]

theorem Numbered.owner_of_property? (hm : m.Numbered) {id : PropertyId} {p : Property}
    (h : m.property? id = some p) : p.owner = id.owner := by
  obtain ⟨o, i⟩ := id
  have key : ∃ ps, m.ownedBy? o = some ps ∧ p ∈ ps := by
    cases o with
    | returns e =>
      rw [property?_returns, Option.bind_eq_some_iff] at h
      obtain ⟨ps, hps, hh⟩ := h
      exact ⟨ps, hps, List.mem_of_mem_head? hh⟩
    | _ =>
      rw [property?_eq m (by simp), Option.bind_eq_some_iff] at h
      obtain ⟨ps, hps, hh⟩ := h
      exact ⟨ps, hps, List.mem_of_getElem? hh⟩
  obtain ⟨ps, hps, hin⟩ := key
  exact (hm.properties o ps (hm.ownedBy?_iff.mp hps)).owner_eq hin

/-! ### The properties of a class -/

theorem Closed.propertiesOf (h : m.Closed K) {c : Class} (hc : c ∈ m.classes)
    (hK : K c.id.file = true) :
    (m.part K).propertiesOf c.plain = (m.propertiesOf c).map Property.plain := by
  unfold Model.propertiesOf
  rw [List.map_append, List.map_flatMap]
  congr 1
  refine List.flatMap_congr fun u hu => ?_
  cases hd : u.decorator.target with
  | none => rfl
  | some d =>
    rw [Option.bind_some, Option.bind_some, decorator?_part (h.decorators c hc hK u hu d hd)]
    cases m.decorator? d <;> rfl

theorem Closed.classProperties (h : m.Closed K) (hm : m.Numbered) {C : ClassId}
    (hC : K C.file = true) :
    (m.part K).classProperties C = (m.classProperties C).map Property.plain := by
  unfold Model.classProperties
  rw [cls?_part hC]
  cases hc : m.cls? C with
  | none => rfl
  | some c =>
    obtain ⟨hmem, rfl⟩ := hm.cls?_iff.mp hc
    exact h.propertiesOf hmem hC

/-- The properties of a class of the set belong to files of the set. -/
theorem Closed.owner_file (h : m.Closed K) (hm : m.Numbered) {C : ClassId} (hC : K C.file = true)
    {p : Property} (hp : p ∈ m.classProperties C) : K p.owner.file = true := by
  rw [classProperties_eq_classLists, List.mem_flatMap] at hp
  obtain ⟨⟨o, ps⟩, ho, hp⟩ := hp
  rw [Property.owner, (hm.properties o ps (hm.owned_of_classLists ho)).owner_eq hp]
  unfold classLists at ho
  split at ho
  next c hc =>
    obtain ⟨hmem, rfl⟩ := hm.cls?_iff.mp hc
    rcases List.mem_cons.mp ho with he | ho
    · obtain ⟨rfl, -⟩ := Prod.mk.inj he
      exact hC
    · obtain ⟨u, hu, ho⟩ := List.mem_filterMap.mp ho
      obtain ⟨d, hd, he⟩ := Option.map_eq_some_iff.mp ho
      obtain ⟨rfl, -⟩ := Prod.mk.inj he
      obtain ⟨id, ht, hd⟩ := Option.bind_eq_some_iff.mp hd
      obtain ⟨-, rfl⟩ := hm.decorator?_iff.mp hd
      exact h.decorators c hmem hC u hu _ ht
  · exact absurd ho List.not_mem_nil

theorem Closed.singlePrimaryKey (h : m.Closed K) (hm : m.Numbered) {C : ClassId}
    (hC : K C.file = true) :
    (m.part K).singlePrimaryKey C = (m.singlePrimaryKey C).map Property.plain := by
  have hkey : (m.part K).primaryKey C = (m.primaryKey C).map Property.plain := by
    unfold Model.primaryKey
    rw [h.classProperties hm hC, List.filter_map]
    congr 2
    funext p
    exact isPrimaryKey_plain p
  unfold Model.singlePrimaryKey
  rw [hkey]
  match m.primaryKey C with
  | [] => rfl
  | [p] => rfl
  | p :: q :: rest => rfl

/-! ### Names -/

open Linking

variable {rules : NamingRules} {settled : Bool}

/-- What a property of the set is resolved to belongs to a file of the set. -/
theorem Closed.target_file (h : m.Closed K) (hs : Sound rules settled m) {p : Property}
    (hp : p ∈ m.properties) (hK : K p.owner.file = true) {c : ClassReference}
    {r : PropertyReference}
    (hl : p.kind.lookup? = some (c, r)) {t : PropertyId} (ht : r.target = some t) :
    K t.owner.file = true := by
  obtain ⟨C, hC, -, q, hq, rfl, -⟩ := hs.grounded p hp c r hl t ht
  exact h.owner_file hs.numbered (h.pointsTo p hp hK C ((pointsTo_of_lookup? hl).trans hC)) hq

/-- The key of an association is the same in the part, and belongs to a file of the set. -/
theorem Closed.keyOf (h : m.Closed K) (hs : Sound rules settled m) {p : Property}
    (hp : p ∈ m.properties)
    (hK : K p.owner.file = true) {a : AssociationProperty} (hk : p.kind = .association a) :
    (m.part K).keyOf a = m.keyOf a ∧ ∀ t, m.keyOf a = some t → K t.owner.file = true := by
  unfold Model.keyOf
  cases ha : a.property with
  | some r =>
    refine ⟨rfl, fun t ht => ?_⟩
    exact h.target_file hs hp hK (c := a.association) (r := r)
      (by simp [hk, PropertyKind.lookup?, ha]) ht
  | none =>
    cases hC : a.association.target with
    | none => exact ⟨rfl, fun t ht => absurd ht (by simp)⟩
    | some C =>
      have hCK := h.pointsTo p hp hK C (by simp [Property.pointsTo, hk, hC])
      simp only [bind, Option.bind_some, h.singlePrimaryKey hs.numbered hCK]
      cases hkey : m.singlePrimaryKey C with
      | none => exact ⟨rfl, fun t ht => absurd ht (by simp)⟩
      | some q =>
        refine ⟨rfl, fun t ht => ?_⟩
        obtain rfl : q.id = t := Option.some.inj ht
        exact h.owner_file hs.numbered hCK (mem_of_singlePrimaryKey hkey)

theorem Closed.className (h : m.Closed K) {p : Property} (hp : p ∈ m.properties)
    (hK : K p.owner.file = true) {r : ClassReference} (hr : p.pointsTo = r.target) :
    (r.target.bind (m.part K).cls?).map (·.name.value)
      = (r.target.bind m.cls?).map (·.name.value) := by
  cases hC : r.target with
  | none => rfl
  | some C =>
    rw [Option.bind_some, Option.bind_some, cls?_part (h.pointsTo p hp hK C (hr.trans hC)),
      Option.map_map]
    rfl

/-- The name of a property of the set is made of the same as in the part. -/
theorem Closed.nameOf (h : m.Closed K) (hs : Sound rules settled m)
    {below below' : PropertyId → Option String}
    (hb : ∀ id, K id.owner.file = true → below' id = below id) {p : Property}
    (hp : p ∈ m.properties) (hK : K p.owner.file = true) :
    (m.part K).nameOf rules below' p.plain.kind = m.nameOf rules below p.kind := by
  unfold Model.nameOf
  rw [show p.plain.kind = p.kind.plain from rfl, declaredName?_plain]
  cases p.kind.declaredName? with
  | some name => rfl
  | none =>
    cases hk : p.kind with
    | regular | composition => rfl
    | association a =>
      have hname := h.className hp hK (r := a.association) (by simp [Property.pointsTo, hk])
      obtain ⟨hkey, hfile⟩ := h.keyOf hs hp hK hk
      have hbelow : (m.keyOf a).bind below' = (m.keyOf a).bind below := by
        cases ht : m.keyOf a with
        | none => rfl
        | some t => exact hb t (hfile t ht)
      simp only [PropertyKind.plain, hkey, hbelow]
      cases hc : a.association.target.bind m.cls? with
      | none =>
        rw [hc, Option.map_none, Option.map_eq_none_iff] at hname
        rw [hname]
      | some c =>
        rw [hc, Option.map_some, Option.map_eq_some_iff] at hname
        obtain ⟨c', hc', he⟩ := hname
        simp only [hc', Option.bind_some, he]
    | propertyAlias a =>
      have hname := h.className hp hK (r := a.cls) (by simp [Property.pointsTo, hk])
      simp only [PropertyKind.plain, hname]
      cases ht : a.property.bind Reference.target with
      | none => rfl
      | some t =>
        obtain ⟨r, hr, htarget⟩ := Option.bind_eq_some_iff.mp ht
        have hfile := h.target_file hs hp hK (c := a.cls) (r := r)
          (by simp [hk, PropertyKind.lookup?, hr]) htarget
        simp only [Option.bind_some, hb t hfile]

theorem Closed.nameWithin (h : m.Closed K) (hs : Sound rules settled m) (fuel : Nat) :
    ∀ id : PropertyId, K id.owner.file = true →
      (m.part K).nameWithin rules fuel id = m.nameWithin rules fuel id := by
  induction fuel with
  | zero => exact fun _ _ => rfl
  | succ fuel ih =>
    intro id hK
    rw [nameWithin_succ, nameWithin_succ, property?_part hK]
    cases hp : m.property? id with
    | none => rw [Option.map_none, Option.bind_none, Option.bind_none]
    | some p =>
      rw [Option.map_some, Option.bind_some, Option.bind_some]
      refine h.nameOf hs ih (mem_of_property? hs.numbered hp) ?_
      rwa [hs.numbered.owner_of_property? hp]

/-- **A property of the set has the same name in the part as in the model.** -/
theorem Closed.propertyName? (h : m.Closed K) (hs : Sound rules settled m) {id : PropertyId}
    (hK : K id.owner.file = true) : (m.part K).propertyName? rules id = m.propertyName? rules id :=
  h.nameWithin hs _ id hK

theorem Closed.findProperty (h : m.Closed K) (hs : Sound rules settled m) {C : ClassId}
    (hC : K C.file = true) (name : String) :
    (m.part K).findProperty rules C name = m.findProperty rules C name := by
  unfold Model.findProperty
  rw [h.classProperties hs.numbered hC, List.find?_map, Option.map_map]
  refine congrArg (Option.map _) (List.find?_congr fun p hp => ?_)
  rw [Function.comp_apply, show p.plain.id = p.id from rfl,
    h.propertyName? hs (h.owner_file hs.numbered hC hp)]

theorem Closed.isSettled (h : m.Closed K) (hm : m.Numbered) {C : ClassId} (hC : K C.file = true) :
    Linking.isSettled (m.part K) C = Linking.isSettled m C := by
  unfold Linking.isSettled
  rw [h.classProperties hm hC, List.any_map]
  congr 2
  funext p
  simp only [Function.comp_apply, alias?_plain]

end Model

end EntityModel
