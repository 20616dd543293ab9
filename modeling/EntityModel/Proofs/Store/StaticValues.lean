import EntityModel.Proofs.Loading.CheckedValues
import EntityModel.Proofs.Store.Expansions
import EntityModel.Proofs.Store.PropertyNames
import EntityModel.Proofs.Validation.Integrity
import Mathlib.Data.List.Find

/-!
# Values in a linked store

Whether the values of a class set what they have to is checked in two places.  Loading looks at the
properties that the class declares, by the names written for them; linking looks at keys and
associations, those from decorators included, by what the fields of the values are resolved to.  In
a linked store without errors both come to the same, since a value sets a property just if it has a
field of its name (`get?_eq_getByName?`).

So the values set everything that they have to, but for one kind of property that neither check
looks at: a required property that a decorator brings and that is no key
(`Reachable.values_complete`).
-/

namespace EntityModel

/-- The values of a class have to set the property: it is required or a key, and neither a
composition nor an alias.  A key that is generated need not be set. -/
def Model.hasToBeSet (m : Model) (p : Property) : Bool :=
  match p.kind with
  | .regular r =>
    if r.primaryKey then !(r.domain.target.bind m.domain?).any (·.autoGeneratedValue)
    else r.required
  | .association a => a.required || a.primaryKey
  | _ => false

namespace Validation

variable {m : Model} {rules : NamingRules} {c : Class}

/-- Of what has to be set, the check of a linked model leaves out the fields that loading is to see
to. -/
theorem hasToBeSet_iff {p : Property} :
    m.hasToBeSet p = true ↔ p.kind.isRequiredField = true ∨ isRequiredInValues m p = true := by
  unfold Model.hasToBeSet isRequiredInValues PropertyKind.isRequiredField
  cases p.kind with
  | regular r => cases hkey : r.primaryKey <;> simp [hkey]
  | _ => simp

theorem isSome_get?_of_no_missing (h : missingValues m rules c = []) {v : ReferenceValue}
    (hv : v ∈ c.values)
    {p : Property} (hp : p ∈ m.classProperties c.id) (hrequired : isRequiredInValues m p = true) :
    (v.get? p.id).isSome = true := by
  rw [missingValues, List.flatMap_eq_nil_iff] at h
  have hset := List.filter_eq_nil_iff.mp (List.map_eq_nil_iff.mp (h v hv)) p
    (List.mem_filter.mpr ⟨hp, hrequired⟩)
  rwa [Option.isNone_iff_eq_none, ← ne_eq, ← Option.isSome_iff_ne_none] at hset

end Validation

namespace Linking

open Validation

variable {m : Model} {rules : NamingRules}

/-! ### From classes to their drafts -/

theorem getByName?_resolved (find : String → Option PropertyId) (v : ReferenceValue)
    (name : String) :
    ReferenceValue.getByName?
        { v with fields := v.fields.map fun f => { f with property := resolveBy find f.property } }
          name
      = v.getByName? name := by
  simp only [ReferenceValue.getByName?, List.find?_map, Option.map_map, Function.comp_def,
    resolveBy_text]

/-- A class has the values of its draft, their fields resolved. -/
theorem exists_draft_of_class (h : m.AsLoaded) {c : Class} (hc : c ∈ (m.link rules).model.classes) :
    ∃ d ∈ m.classes, d.id = c.id ∧
      ∀ v ∈ c.values, ∃ v₀ ∈ d.values, ∀ name, v.getByName? name = v₀.getByName? name := by
  rw [link_model, resolvePropertyReferences_eq, Model.classes_mapClasses, List.mem_map] at hc
  obtain ⟨c, hc, rfl⟩ := hc
  obtain ⟨c', hc', hframe⟩ := (sameFrame_associated rules h).classes hc
  obtain ⟨d, hd, he⟩ := exists_class_of_linkNames hc'
  have hid : c.frame.id = c'.frame.id := congrArg Class.id hframe
  have hvalues : c.frame.values = c'.frame.values := congrArg Class.values hframe
  refine ⟨d, hd, ?_, fun v hv => ?_⟩
  · exact (congrArg Class.id he).symm.trans hid.symm
  · obtain ⟨v₀, hv₀, rfl⟩ := List.mem_map.mp hv
    have hmem : v₀ ∈ c'.values := hvalues ▸ hv₀
    exact ⟨v₀, congrArg Class.values he ▸ hmem, getByName?_resolved _ v₀⟩

/-- What is regular stands in its own place; in the place of an alias there are aliases only. -/
theorem InPlaceOf.regular {p q : Property} {block : List Property} (h : InPlaceOf rules m p block)
    (hq : q ∈ block) {r : RegularProperty} (hk : q.kind = .regular r) : p.kind = .regular r := by
  cases h with
  | itself _ hres =>
    obtain rfl := List.mem_singleton.mp hq
    rw [hk] at hres
    generalize p.kind = k at hres
    cases hres with
    | refl => rfl
  | aliases _ _ _ _ hcontent =>
    have hmem := List.mem_map_of_mem (f := Property.content) hq
    rw [hcontent, List.mem_map] at hmem
    obtain ⟨x, -, hx⟩ := hmem
    have hexpanded := congrArg Prod.snd hx
    simp [Property.content, expandedAlias, hk] at hexpanded

/-- A regular property of a linked list stands in the draft of the list, with nothing resolved but
its domain. -/
theorem exists_draft_of_regular (h : m.AsLoaded)
    (hnone : ∀ d ∈ (m.link rules).problems, d.isError = false)
    {o : PropertyOwner} {qs : List Property} (ho : (o, qs) ∈ (m.link rules).model.owned)
    {q : Property} (hq : q ∈ qs) {r : RegularProperty} (hk : q.kind = .regular r) :
    ∃ ps, (o, ps) ∈ m.owned ∧ ∃ p ∈ ps, ∃ domain, p.kind = .regular { r with domain } := by
  have hreplaced := replaces_link h hnone
  have hnumbered := (sound_link rules h).numbered
  have howner := List.mem_map_of_mem (f := Prod.fst) ho
  rw [hreplaced.owners, List.mem_map] at howner
  obtain ⟨⟨o, ps'⟩, hps', rfl⟩ := howner
  obtain ⟨blocks, hblocks, hplaces, -⟩ := hreplaced.lists o ps' hps'
  have hflat : qs = blocks.flatten :=
    Option.some.inj ((hnumbered.ownedBy?_iff.mpr ho).symm.trans
      (hnumbered.ownedBy?_iff.mpr hblocks))
  rw [hflat] at hq
  obtain ⟨block, hblock, hq⟩ := List.mem_flatten.mp hq
  obtain ⟨p', hp', hplace⟩ := exists_of_forall₂ hplaces.flip block hblock
  have hkind : p'.kind = .regular r := InPlaceOf.regular hplace hq hk
  -- before it was linked by name, only the domain was open
  have hlinked := ownedBy?_linkNames m o
  rw [(numbered_linkNames h.numbered).ownedBy?_iff.mpr hps'] at hlinked
  obtain ⟨ps, hps, hmap⟩ := Option.map_eq_some_iff.mp hlinked.symm
  rw [← hmap, List.mem_map] at hp'
  obtain ⟨p, hp, rfl⟩ := hp'
  refine ⟨ps, h.numbered.ownedBy?_iff.mp hps, p, hp, ?_⟩
  cases hpk : p.kind with
  | regular r₀ =>
    simp only [hpk, resolveKind] at hkind
    obtain rfl := PropertyKind.regular.inj hkind
    exact ⟨r₀.domain, rfl⟩
  | _ => simp [hpk, resolveKind] at hkind

/-! ### What values set -/

/-- **Without errors a value sets a property just if it has a field of its name.** -/
theorem get?_eq_getByName? (h : m.AsLoaded)
    (hnone : ∀ d ∈ (m.link rules).problems, d.isError = false)
    {c : Class} (hc : c ∈ (m.link rules).model.classes) {v : ReferenceValue} (hv : v ∈ c.values)
    {p : Property} (hp : p ∈ (m.link rules).model.classProperties c.id) {name : String}
    (hname : (m.link rules).model.propertyName? rules p.id = some name) :
    v.get? p.id = v.getByName? name := by
  unfold ReferenceValue.get? ReferenceValue.getByName?
  refine congrArg (Option.map _) (List.find?_congr fun f hf => ?_)
  have hmention : f.property ∈ c.mentions :=
    List.mem_append_right _ (List.mem_flatMap.mpr ⟨v, hv, List.mem_map_of_mem hf⟩)
  rw [Bool.eq_iff_iff, beq_iff_eq, beq_iff_eq, target_of_mention h hc hmention]
  constructor
  · intro hfound
    obtain ⟨-, -, -, htext⟩ := Model.goesBy_of_findProperty hfound
    exact Option.some.inj (htext.symm.trans hname)
  · rintro rfl
    exact (integral_of_no_errors h hnone).found c hc p hp _ hname

/-- **Without errors values set keys and associations**, those that decorators bring included. -/
theorem isSome_get?_of_key (hnone : ∀ d ∈ (m.link rules).problems, d.isError = false)
    {c : Class} (hc : c ∈ (m.link rules).model.classes) {v : ReferenceValue} (hv : v ∈ c.values)
    {p : Property} (hp : p ∈ (m.link rules).model.classProperties c.id)
    (hrequired : isRequiredInValues (m.link rules).model p = true) :
    (v.get? p.id).isSome = true := by
  obtain ⟨-, -, -, -, hvalid⟩ := nothing_reported hnone
  simp only [problems, List.append_eq_nil_iff, List.flatMap_eq_nil_iff, classProblems] at hvalid
  exact isSome_get?_of_no_missing (hvalid.1.1.2 c hc).2 hv hp hrequired

/-- **Without errors values set the required properties that their class declares** and loading
looked at. -/
theorem isSome_get?_of_own (h : m.AsLoaded) (hset : ∀ c ∈ m.classes, c.SetsRequired)
    (hnone : ∀ d ∈ (m.link rules).problems, d.isError = false)
    {c : Class} (hc : c ∈ (m.link rules).model.classes) {v : ReferenceValue} (hv : v ∈ c.values)
    {p : Property}
    (hown : p ∈ c.properties) (hrequired : p.kind.isRequiredField = true) :
    (v.get? p.id).isSome = true := by
  have hnumbered := (sound_link rules h).numbered
  have howned : (PropertyOwner.cls c.id, c.properties) ∈ (m.link rules).model.owned :=
    List.mem_append_left _ (List.mem_append_left _ (List.mem_map_of_mem hc))
  have hp : p ∈ (m.link rules).model.classProperties c.id := by
    rw [Model.classProperties, hnumbered.cls?_iff.mpr ⟨hc, rfl⟩]
    exact List.mem_append_left _ hown
  cases hk : p.kind with
  | regular r =>
    obtain ⟨hreq, hkey⟩ : r.required = true ∧ r.primaryKey = false := by
      simpa [PropertyKind.isRequiredField, hk] using hrequired
    -- the property and the value were there when the class was loaded
    obtain ⟨d, hd, hid, hvalues⟩ := exists_draft_of_class h hc
    obtain ⟨v₀, hv₀, hsame⟩ := hvalues v hv
    obtain ⟨ps, hps, p₀, hp₀, domain, hk₀⟩ := exists_draft_of_regular h hnone howned hown hk
    have hdraft : (PropertyOwner.cls c.id, d.properties) ∈ m.owned :=
      hid ▸ List.mem_append_left _ (List.mem_append_left _ (List.mem_map_of_mem hd))
    obtain rfl : ps = d.properties :=
      Option.some.inj ((h.numbered.ownedBy?_iff.mpr hps).symm.trans
        (h.numbered.ownedBy?_iff.mpr hdraft))
    have hname : (m.link rules).model.propertyName? rules p.id = some r.name.value := by
      rw [Model.propertyName?, Model.nameWithin,
        hnumbered.property?_of_mem (hnumbered.mem_of_classProperties hp)]
      simp [Property.declaredName?, PropertyKind.declaredName?, hk]
    rw [get?_eq_getByName? h hnone hc hv hp hname, hsame]
    exact (hset d hd v₀ hv₀ p₀ hp₀ _ hk₀ hreq hkey :)
  | _ => simp [PropertyKind.isRequiredField, hk] at hrequired

end Linking

namespace Store

open Linking

variable {s : Store}

theorem Reachable.setsRequired (h : s.Reachable) : ∀ c ∈ s.draftModel.classes, c.SetsRequired := by
  have hfiles := h.forall_drafts (P := fun f => ∀ c ∈ f.classes, c.SetsRequired)
    fun hload _ => (ModelFile.setsRequired_of_load hload :)
  intro c hc
  obtain ⟨f, hf, hc⟩ := List.mem_flatMap.mp hc
  exact hfiles f hf c hc

/-- **After a link without errors every value of a class sets what it has to**: keys that are not
generated, and what is required, of the class itself and of its decorators, **but for properties of
decorators that are required and neither keys nor associations**.  These are set, as all others,
**just by a field of their name**, which nothing makes a value have. -/
theorem Reachable.values_complete (h : s.Reachable) (hnone : s.link.2.errors = 0) {c : Class}
    (hc : c ∈ s.link.1.model.classes) {v : ReferenceValue} (hv : v ∈ c.values) {p : Property}
    (hp : p ∈ s.link.1.model.classProperties c.id) :
    (s.link.1.model.hasToBeSet p = true → p ∈ c.properties ∨ p.kind.isRequiredField = false →
      (v.get? p.id).isSome = true) ∧
    ∀ name, s.link.1.model.propertyName? s.naming p.id = some name →
    v.get? p.id = v.getByName? name := by
  have hm := h.drafted.asLoaded
  have hclear := no_errors_of_link hnone
  rw [link_model] at hc hp ⊢
  refine ⟨fun hmust hseen => ?_, fun name hname => get?_eq_getByName? hm hclear hc hv hp hname⟩
  rcases Validation.hasToBeSet_iff.mp hmust with hfield | hkey
  · rcases hseen with hown | hnot
    · exact isSome_get?_of_own hm h.setsRequired hclear hc hv hown hfield
    · rw [hfield] at hnot
      exact absurd hnot (by simp)
  · exact isSome_get?_of_key hclear hc hv hp hkey

/-- A class with a value that sets its required property, and a decorator that requires another. -/
def decorated : Store :=
  loadAll {} [("A", "module: M\n---\ndomain:\n name: D\n---\ndecorator:\n name: E\n properties:\n"
    ++ " - {name: Foo, domain: D, required: true}\n---\nclass:\n name: K\n decorators: [E]\n"
    ++ " properties:\n - {name: Bar, domain: D, required: true}\n values:\n  V: {Bar: a}")]

/-- What linking makes of it: nothing is reported, and no field has the name of the one from the
decorator. -/
theorem decorated_linked :
    decorated.link.2.errors = 0 ∧
      ∃ c ∈ decorated.link.1.model.classes, ∃ v ∈ c.values,
        (∃ p ∈ decorated.link.1.model.classProperties c.id, p ∈ c.properties ∧
          decorated.link.1.model.hasToBeSet p = true ∧ p.kind.isRequiredField = true) ∧
        ∃ p ∈ decorated.link.1.model.classProperties c.id,
        decorated.link.1.model.hasToBeSet p = true ∧
        decorated.link.1.model.propertyName? decorated.naming p.id = some "Foo" ∧
        v.getByName? "Foo" = none := by
  have hspelled : decorated = _ :=
    loadAll_eq_foldl
      (.cons (toList_append_eq (toList_append_eq String.toList_ofList String.toList_ofList)
        String.toList_ofList) .nil)
  rw [hspelled]
  decide +kernel

/-- There the value sets the required property of the class, but **not the one of the decorator,
which it has to set as well**. -/
theorem values_complete_in_decorated :
    decorated.link.2.errors = 0 ∧
      ∃ c ∈ decorated.link.1.model.classes, ∃ v ∈ c.values,
        (∃ p ∈ decorated.link.1.model.classProperties c.id,
          decorated.link.1.model.hasToBeSet p = true ∧
          p.kind.isRequiredField = true ∧ (v.get? p.id).isSome = true) ∧
        ∃ p ∈ decorated.link.1.model.classProperties c.id,
        decorated.link.1.model.hasToBeSet p = true ∧
        v.get? p.id = none := by
  obtain ⟨hnone, c, hc, v, hv, ⟨p, hp, hown, hmust, hfield⟩, q, hq, hmust', hname, hunset⟩ :=
    decorated_linked
  have hreach : decorated.Reachable := reachable_loadAll {} _
  refine ⟨hnone, c, hc, v, hv, ⟨p, hp, hmust, hfield, ?_⟩, q, hq, hmust', ?_⟩
  · exact (Reachable.values_complete hreach hnone hc hv hp).1 hmust (Or.inl hown)
  · rw [(Reachable.values_complete hreach hnone hc hv hq).2 "Foo" hname, hunset]

end Store

end EntityModel
